import TreeFold.Proofs.Flatten.ChunkSize
import TreeFold.Proofs.Refusals

/-!
# Sources that cannot be read

A source that cannot be read adds its failure and takes no name, so the other sources are flattened
as if it were not there, with one exception. It has a place in its chunk, and without it the chunks
are cut elsewhere: a source behind it is then read earlier or later among the writes. The two runs
differ exactly when such a source is written and reads otherwise for that. This takes a first write
that uncovers a file, as it does for the size of the chunks.
-/

namespace TreeFold.Flatten

open Component TreeFold.Path FileSystem Text Batch

variable {options : Options} {fs : FileSystem} {run : Run} {source : Path}
  {before front rest sources : List Path} {size : Nat}

section Chunks

variable {α : Type} {cut fuel more : Nat} {items : List α}

/-- Fuel for every item is enough. -/
theorem chunks_fuel (hfuel : items.length ≤ fuel) (hmore : items.length ≤ more) :
    chunks cut fuel items = chunks cut more items := by
  induction fuel generalizing items more with
  | zero => rw [List.eq_nil_of_length_eq_zero (Nat.le_zero.mp hfuel), chunks, chunks]
  | succ fuel ih =>
      cases items with
      | nil => rw [chunks, chunks]
      | cons item rest =>
          cases more with
          | zero => cases hmore
          | succ more =>
              have hdrop : ((item :: rest).drop (cut + 1)).length ≤ rest.length := by
                rw [List.length_drop, List.length_cons]
                omega
              rw [chunks, chunks]
              · congr 1
                exact ih (hdrop.trans (Nat.le_of_succ_le_succ hfuel))
                  (hdrop.trans (Nat.le_of_succ_le_succ hmore))
              · simp
              · simp

/-- A full chunk is cut off. -/
theorem chunks_append {front rest : List α} (h : front.length = cut + 1) :
    chunks cut (front ++ rest).length (front ++ rest) = front :: chunks cut rest.length rest := by
  obtain ⟨first, others, rfl⟩ := List.exists_cons_of_length_eq_add_one h
  rw [List.cons_append, List.length_cons, chunks]
  · rw [← List.cons_append, List.take_left' h, List.drop_left' h]
    congr 1
    apply chunks_fuel _ (Nat.le_refl _)
    rw [List.length_append]
    exact Nat.le_add_left _ _
  · simp

/-- What fits into one chunk is one chunk. -/
theorem chunks_of_le (hne : items ≠ []) (h : items.length ≤ cut + 1) :
    chunks cut items.length items = [items] := by
  obtain ⟨first, others, rfl⟩ := List.exists_cons_of_ne_nil hne
  rw [List.length_cons, chunks]
  · rw [List.take_of_length_le h, List.drop_of_length_le h, chunks]
  · simp

/-- The items of the whole chunks of a list, without those of the last chunk begun. -/
def wholeChunks (cut : Nat) (items : List α) : List α :=
  items.take (items.length / (cut + 1) * (cut + 1))

theorem wholeChunks_of_lt (h : items.length < cut + 1) : wholeChunks cut items = [] := by
  rw [wholeChunks, Nat.div_eq_of_lt h, Nat.zero_mul, List.take_zero]

theorem wholeChunks_append {front rest : List α} (h : front.length = cut + 1) :
    wholeChunks cut (front ++ rest) = front ++ wholeChunks cut rest := by
  have hlength : (front ++ rest).length / (cut + 1) * (cut + 1) =
      front.length + rest.length / (cut + 1) * (cut + 1) := by
    rw [List.length_append, h, Nat.add_div_left _ (Nat.succ_pos _), Nat.succ_mul, Nat.add_comm]
  rw [wholeChunks, hlength, List.take_length_add_append]
  rfl

theorem wholeChunks_isPrefix (cut : Nat) (items : List α) : wholeChunks cut items <+: items :=
  List.take_prefix _ _

end Chunks

section Growing

/-- Take the sources in chunks of `cut + 1`. -/
def inCuts (options : Options) (cut : Nat) (run : Run) (sources : List Path) : Run :=
  (chunks cut sources.length sources).foldl (writeChunk options) run

theorem inCuts_append {cut : Nat} (h : front.length = cut + 1) (run : Run) (rest : List Path) :
    inCuts options cut run (front ++ rest) =
      inCuts options cut (oneByOne options run.batch.fs run front) rest := by
  rw [inCuts, chunks_append h, List.foldl_cons, writeChunk_eq]
  rfl

theorem inCuts_of_le {cut : Nat} (h : sources.length ≤ cut + 1) (run : Run) :
    inCuts options cut run sources = oneByOne options run.batch.fs run sources := by
  by_cases hnil : sources = []
  · rw [hnil]
    rfl
  · rw [inCuts, chunks_of_le hnil h, List.foldl_cons, List.foldl_nil, writeChunk_eq]

/-- One more source is rendered as it reads after the whole chunks before it, and then written. -/
theorem inCuts_concat (options : Options) (cut : Nat) (run : Run) (before : List Path)
    (source : Path) :
    inCuts options cut run (before ++ [source]) =
      writeRendered options (inCuts options cut run before) source
        (render options (inCuts options cut run (wholeChunks cut before)).batch.fs source) := by
  induction hlength : before.length using Nat.strong_induction_on generalizing run before with
  | _ length ih =>
      by_cases hshort : before.length < cut + 1
      · have hall : (before ++ [source]).length ≤ cut + 1 := by
          rw [List.length_append]
          exact hshort
        rw [inCuts_of_le hall, inCuts_of_le hshort.le, wholeChunks_of_lt hshort, oneByOne_append]
        rfl
      · have hfront : (before.take (cut + 1)).length = cut + 1 := by
          rw [List.length_take]
          omega
        have hrest : (before.drop (cut + 1)).length < length := by
          rw [List.length_drop]
          omega
        rw [← List.take_append_drop (cut + 1) before, List.append_assoc, inCuts_append hfront,
          inCuts_append hfront, wholeChunks_append hfront, inCuts_append hfront]
        exact ih _ hrest _ _ rfl

/-- The run over the sources in chunks of a size. -/
def flattened (options : Options) (size : Nat) (fs : FileSystem) (sources : List Path) : Run :=
  inCuts options (size - 1) (begin options fs) sources

theorem batch_flattened (options : Options) (size : Nat) (fs : FileSystem)
    (sources : List Path) :
    (flattened options size fs sources).batch = inChunks options size fs sources := rfl

/-- A source behind others, as it reads when its chunk is begun. -/
def renderedAfter (options : Options) (size : Nat) (fs : FileSystem) (before : List Path)
    (source : Path) : Except FileFailure Text :=
  render options (inChunks options size fs (wholeChunks (size - 1) before)).fs source

theorem flattened_concat (options : Options) (size : Nat) (fs : FileSystem)
    (before : List Path) (source : Path) :
    flattened options size fs (before ++ [source]) =
      writeRendered options (flattened options size fs before) source
        (renderedAfter options size fs before source) :=
  inCuts_concat options _ _ before source

theorem tracks_flattened (hreal : options.dryRun = false) (hfs : fs.LinkFree) (size : Nat)
    (sources : List Path) :
    ∃ done, Tracks options fs (flattened options size fs sources) done := by
  induction sources using List.reverseRecOn with
  | nil => exact ⟨[], .start hfs⟩
  | append_singleton sources source ih =>
      obtain ⟨done, hdone⟩ := ih
      rw [flattened_concat]
      obtain ⟨new, hnew, -⟩ := hdone.step (step_writeRendered hreal _ source _)
      exact ⟨_, hnew⟩

theorem fs_flattened_dry (hdry : options.dryRun = true) (size : Nat) (fs : FileSystem)
    (sources : List Path) : (flattened options size fs sources).batch.fs = fs := by
  rw [batch_flattened, inChunks_dry hdry, fs_oneByOne_dry hdry]
  rfl

/-- What was a file at the start is one later. -/
theorem isFile_flattened (hfs : fs.LinkFree) (size : Nat) (sources : List Path)
    (h : fs.isFile source = true) :
    (flattened options size fs sources).batch.fs.isFile source = true := by
  cases hdry : options.dryRun with
  | true =>
      rw [fs_flattened_dry hdry]
      exact h
  | false =>
      obtain ⟨done, hdone⟩ := tracks_flattened hdry hfs size sources
      exact isFile_retains hfs hdone.wrote.retains h

theorem exists_renderedAfter (hfs : fs.LinkFree) (size : Nat) (before : List Path)
    (h : fs.isFile source = true) :
    ∃ text, renderedAfter options size fs before source = .ok text :=
  exists_render options (isFile_flattened hfs size _ h)

end Growing

/-- The source cannot be read at any point of the run. -/
def Unreadable (options : Options) (size : Nat) (fs : FileSystem) (sources : List Path)
    (source : Path) : Prop :=
  ∀ front, front <+: sources →
    ∃ e, (inChunks options size fs front).fs.readText source = .error e

/-- A source that is no file at the start fails to be read. -/
def Refuses (fs : FileSystem) (source : Path) (failure : FileFailure) : Prop :=
  fs.isFile source = false ∧ ∃ e, failure = .read source e

theorem not_refuses (h : fs.isFile source = true) (failure : FileFailure) :
    ¬Refuses fs source failure := by
  rintro ⟨hfile, -⟩
  rw [h] at hfile
  cases hfile

/-- The sources that are files. -/
def filesOf (fs : FileSystem) (sources : List Path) : List Path :=
  sources.filter fs.isFile

/-- Behind the other sources, and behind the files among them, the source reads differently, and it
is written behind the files. -/
def DisplacedAfter (options : Options) (size : Nat) (fs : FileSystem) (before : List Path)
    (source : Path) : Prop :=
  renderedAfter options size fs before source ≠
      renderedAfter options size fs (filesOf fs before) source ∧
    (inChunks options size fs (filesOf fs before)).report.written <
      (inChunks options size fs (filesOf fs (before ++ [source]))).report.written

/-- A source that is written reads differently for the sources that are no files. -/
def Displaced (options : Options) (size : Nat) (fs : FileSystem) (sources : List Path) : Prop :=
  ∃ before source, before ++ [source] <+: sources ∧ DisplacedAfter options size fs before source

section Files

theorem filesOf_concat (h : fs.isFile source = true) (before : List Path) :
    filesOf fs (before ++ [source]) = filesOf fs before ++ [source] := by
  rw [filesOf, List.filter_append, List.filter_cons_of_pos h, List.filter_nil]
  rfl

theorem filesOf_concat_of_not (h : fs.isFile source = false) (before : List Path) :
    filesOf fs (before ++ [source]) = filesOf fs before := by
  rw [filesOf, List.filter_append, List.filter_cons_of_neg (by simp [h]), List.filter_nil,
    List.append_nil]
  rfl

theorem isFile_of_mem_filesOf (h : source ∈ filesOf fs sources) : fs.isFile source = true :=
  (List.mem_filter.mp h).2

theorem filesOf_isPrefix (h : front <+: sources) : filesOf fs front <+: filesOf fs sources :=
  h.filter _

/-- Only files are displaced. -/
theorem DisplacedAfter.isFile (h : DisplacedAfter options size fs before source) :
    fs.isFile source = true := by
  by_contra hfile
  have hwritten := h.2
  rw [filesOf_concat_of_not (by simpa using hfile)] at hwritten
  exact Nat.lt_irrefl _ hwritten

theorem Displaced.of_isPrefix (h : Displaced options size fs front) (hfront : front <+: sources) :
    Displaced options size fs sources := by
  obtain ⟨before, source, hinitial, hdisplaced⟩ := h
  exact ⟨before, source, hinitial.trans hfront, hdisplaced⟩

theorem displaced_concat_iff :
    Displaced options size fs (before ++ [source]) ↔
      Displaced options size fs before ∨ DisplacedAfter options size fs before source := by
  constructor
  · rintro ⟨front, item, hinitial, hdisplaced⟩
    rcases List.prefix_concat_iff.mp hinitial with heq | hshorter
    · obtain ⟨rfl, hitem⟩ := List.append_inj' heq rfl
      obtain rfl := List.singleton_inj.mp hitem
      exact Or.inr hdisplaced
    · exact Or.inl ⟨front, item, hshorter, hdisplaced⟩
  · rintro (hdisplaced | hdisplaced)
    · exact hdisplaced.of_isPrefix (List.prefix_append _ _)
    · exact ⟨before, source, List.prefix_rfl, hdisplaced⟩

end Files

/-- Both runs name and write a rendered source alike. -/
theorem absorbs_writeRendered {refuses : Path → FileFailure → Prop} {items : List Path}
    {all own : Run} (h : Absorbs refuses items all.batch own.batch) (hnames : all.names = own.names)
    (haccepts : ∀ failure, ¬refuses source failure) (text : Text) :
    Absorbs refuses (items ++ [source]) (writeRendered options all source (.ok text)).batch
        (writeRendered options own source (.ok text)).batch ∧
      (writeRendered options all source (.ok text)).names =
        (writeRendered options own source (.ok text)).names := by
  obtain ⟨⟨fs, report⟩, names⟩ := all
  obtain ⟨⟨later, other⟩, others⟩ := own
  obtain rfl : fs = later := h.fs
  obtain rfl : names = others := hnames
  cases hname : source.fileName? with
  | none =>
      simp only [writeRendered, hname, and_true]
      exact h.recordInputs.fail haccepts _
  | some name =>
      simp only [writeRendered, hname, NameAllocator.allocate]
      cases names.choose? fs name with
      | none => exact ⟨h.recordInputs.recordSkip haccepts _, rfl⟩
      | some destination => exact ⟨h.recordInputs.write haccepts _ destination text, rfl⟩

/-- Every source is a file at the start, or it cannot be read at any point of the run. -/
def Steady (options : Options) (size : Nat) (fs : FileSystem) (sources : List Path) : Prop :=
  ∀ source ∈ sources, fs.isFile source = true ∨ Unreadable options size fs sources source

theorem Steady.of_isPrefix (h : Steady options size fs sources) (hfront : front <+: sources) :
    Steady options size fs front := by
  intro s hs
  rcases h s (hfront.subset hs) with hfile | hunreadable
  · exact Or.inl hfile
  · exact Or.inr fun first hfirst => hunreadable first (hfirst.trans hfront)

/-- A source that is no file is a failure. -/
theorem Steady.renderedAfter (h : Steady options size fs (before ++ [source]))
    (hfile : fs.isFile source = false) :
    ∃ e, renderedAfter options size fs before source = .error (.read source e) := by
  have hsource := h source (List.mem_append_right _ List.mem_cons_self)
  have hunreadable := hsource.resolve_left (by simp [hfile])
  obtain ⟨e, he⟩ := hunreadable (wholeChunks (size - 1) before)
    ((wholeChunks_isPrefix _ _).trans (List.prefix_append _ _))
  refine ⟨e, ?_⟩
  rw [Flatten.renderedAfter, render, he]

/-- As long as no source is displaced, the run is that over the files, with the failures of the
other sources. -/
theorem absorbs_of_not_displaced (hfs : fs.LinkFree) (hsteady : Steady options size fs sources)
    (h : ¬Displaced options size fs sources) :
    Absorbs (Refuses fs) sources (flattened options size fs sources).batch
        (flattened options size fs (filesOf fs sources)).batch ∧
      (flattened options size fs sources).names =
        (flattened options size fs (filesOf fs sources)).names := by
  induction sources using List.reverseRecOn with
  | nil => exact ⟨.start _ fs, rfl⟩
  | append_singleton before source ih =>
      rw [displaced_concat_iff, not_or] at h
      obtain ⟨habsorbs, hnames⟩ := ih (hsteady.of_isPrefix (List.prefix_append _ _)) h.1
      rw [flattened_concat]
      cases hfile : fs.isFile source with
      | false =>
          obtain ⟨e, he⟩ := hsteady.renderedAfter hfile
          rw [filesOf_concat_of_not hfile, he]
          exact ⟨habsorbs.recordInput.refused ⟨hfile, e, rfl⟩, hnames⟩
      | true =>
          obtain ⟨text, htext⟩ : ∃ text, renderedAfter options size fs before source = .ok text :=
            exists_renderedAfter hfs size before hfile
          obtain ⟨other, hother⟩ :
              ∃ text, renderedAfter options size fs (filesOf fs before) source = .ok text :=
            exists_renderedAfter hfs size _ hfile
          -- A source that is not displaced does the same whichever of the two texts it reads as.
          have hstep : writeRendered options (flattened options size fs (filesOf fs before)) source
              (.ok other) = writeRendered options
                (flattened options size fs (filesOf fs before)) source (.ok text) := by
            by_cases hsame : text = other
            · rw [hsame]
            · symm
              apply writeRendered_congr
              intro hwritten
              refine h.2 ⟨?_, ?_⟩
              · rw [htext, hother]
                exact fun heq => hsame (Except.ok.inj heq)
              · rw [filesOf_concat hfile, ← batch_flattened, ← batch_flattened, flattened_concat,
                  hother]
                exact hwritten
          rw [filesOf_concat hfile, flattened_concat, htext, hother, hstep]
          exact absorbs_writeRendered habsorbs hnames (not_refuses hfile) text

/-- Both runs have put different texts into one output. -/
def Parted (options : Options) (size : Nat) (fs : FileSystem) (sources : List Path) : Prop :=
  ∃ done others o other,
    Tracks options fs (flattened options size fs sources) done ∧
    Tracks options fs (flattened options size fs (filesOf fs sources)) others ∧
    o ∈ done ∧ other ∈ others ∧ o.destination = other.destination ∧ o.text ≠ other.text

theorem Parted.not_absorbs (h : Parted options size fs sources) :
    ¬Absorbs (Refuses fs) sources (flattened options size fs sources).batch
      (flattened options size fs (filesOf fs sources)).batch := by
  obtain ⟨done, others, o, other, hdone, hothers, ho, hother, hdestination, htext⟩ := h
  intro habsorbs
  have hget := hdone.get?_output ho
  rw [habsorbs.fs, hdestination] at hget
  have hfile := Option.some.inj (hget.symm.trans (hothers.get?_output hother))
  exact htext (encodeUtf8_inj.mp (Entry.file.inj hfile))

section Real

variable (hfs : fs.LinkFree) (hreal : options.dryRun = false)
include hfs hreal

omit hfs in
/-- Outputs stay outputs behind one source more. -/
theorem Parted.concat (h : Parted options size fs before) (source : Path) :
    Parted options size fs (before ++ [source]) := by
  obtain ⟨done, others, o, other, hdone, hothers, ho, hother, hsame⟩ := h
  obtain ⟨new, hnew, -⟩ := hdone.step (step_writeRendered hreal _ source
    (renderedAfter options size fs before source))
  rw [← flattened_concat] at hnew
  cases hfile : fs.isFile source with
  | false =>
      refine ⟨_, others, o, other, hnew, ?_, List.mem_append_left _ ho, hother, hsame⟩
      rw [filesOf_concat_of_not hfile]
      exact hothers
  | true =>
      obtain ⟨more, hmore, -⟩ := hothers.step (step_writeRendered hreal _ source
        (renderedAfter options size fs (filesOf fs before) source))
      rw [← flattened_concat, ← filesOf_concat hfile] at hmore
      exact ⟨_, _, o, other, hnew, hmore, List.mem_append_left _ ho, List.mem_append_left _ hother,
        hsame⟩

/-- A displaced source parts the runs. -/
theorem DisplacedAfter.parted (hsteady : Steady options size fs (before ++ [source]))
    (hbefore : ¬Displaced options size fs before)
    (h : DisplacedAfter options size fs before source) :
    Parted options size fs (before ++ [source]) := by
  have hfile := h.isFile
  obtain ⟨hreads, hwritten⟩ := h
  have hfront := hsteady.of_isPrefix (List.prefix_append _ _)
  obtain ⟨habsorbs, hnames⟩ := absorbs_of_not_displaced hfs hfront hbefore
  obtain ⟨text, htext⟩ : ∃ text, renderedAfter options size fs before source = .ok text :=
    exists_renderedAfter hfs size before hfile
  obtain ⟨other, hother⟩ :
      ∃ text, renderedAfter options size fs (filesOf fs before) source = .ok text :=
    exists_renderedAfter hfs size _ hfile
  rw [filesOf_concat hfile, ← batch_flattened, ← batch_flattened, flattened_concat, hother]
    at hwritten
  obtain ⟨done, hdone⟩ := tracks_flattened hreal hfs size before
  obtain ⟨others, hothers⟩ := tracks_flattened hreal hfs size (filesOf fs before)
  -- Had it read alike, both runs would have written it to the same place.
  obtain ⟨hstep, -⟩ := absorbs_writeRendered habsorbs hnames (not_refuses hfile) other
  have hlater : (flattened options size fs before).batch.report.written <
      (writeRendered options (flattened options size fs before) source
        (.ok other)).batch.report.written := by
    rw [hstep.written, habsorbs.written]
    exact hwritten
  obtain ⟨destination, hall⟩ := hdone.output_of_lt hreal hlater
  obtain ⟨place, hown⟩ := hothers.output_of_lt hreal hwritten
  have houtputs := hstep.outputs
  rw [(hall other).outputs, (hown other).outputs, List.map_append, List.map_append] at houtputs
  obtain ⟨-, hlast⟩ := List.append_inj' houtputs rfl
  have hplace : destination = place := List.singleton_inj.mp hlast
  have hfull := hall text
  have hfiles := hown other
  rw [← htext, ← flattened_concat] at hfull
  rw [← hother, ← flattened_concat, ← filesOf_concat hfile] at hfiles
  refine ⟨_, _, _, _, hfull, hfiles, List.mem_append_right _ List.mem_cons_self,
    List.mem_append_right _ List.mem_cons_self, hplace, ?_⟩
  rintro rfl
  exact hreads (htext.trans hother.symm)

theorem parted_of_displaced (hsteady : Steady options size fs sources)
    (h : Displaced options size fs sources) : Parted options size fs sources := by
  induction sources using List.reverseRecOn with
  | nil =>
      obtain ⟨before, source, hinitial, -⟩ := h
      simpa using List.prefix_nil.mp hinitial
  | append_singleton before source ih =>
      by_cases hbefore : Displaced options size fs before
      · exact (ih (hsteady.of_isPrefix (List.prefix_append _ _)) hbefore).concat hreal source
      · exact ((displaced_concat_iff.mp h).resolve_left hbefore).parted hfs hreal hsteady hbefore

/-- Where the first write uncovers no file, a file reads as it did at the start. -/
theorem render_flattened (hsources : ∀ source ∈ before, fs.isFile source = true)
    (hsafe : ¬FirstUncovers options fs before) (hfile : fs.isFile source = true) :
    render options (flattened options size fs before).batch.fs source =
      render options fs source := by
  have hstart : KeepsFiles options fs (begin options fs) (before ++ []) := by
    rw [List.append_nil]
    exact ⟨hsources, keeps_begin hfs hsafe⟩
  have hend : KeepsFiles options fs (oneByOne options fs (begin options fs) before) [] :=
    oneByOne_invariant (fun _ _ _ h => h.step hreal) hstart
  rw [batch_flattened, inChunks_eq_oneByOne hfs hreal hsources hsafe]
  exact render_mono hfs hend.2.keeps hfile

/-- A source behind none that is displaced is displaced only where the first write uncovers a
file. -/
theorem DisplacedAfter.firstUncovers (hsteady : Steady options size fs before)
    (hbefore : ¬Displaced options size fs before)
    (h : DisplacedAfter options size fs before source) :
    FirstUncovers options fs (filesOf fs before) := by
  by_contra hsafe
  have hsame : ∀ {front : List Path}, front <+: filesOf fs before →
      render options (flattened options size fs front).batch.fs source =
        render options fs source := by
    intro front hfront
    have hfiles : ∀ s ∈ front, fs.isFile s = true :=
      fun s hs => isFile_of_mem_filesOf (hfront.subset hs)
    obtain ⟨rest, hrest⟩ := hfront
    exact render_flattened hfs hreal hfiles
      (fun hfirst => hsafe (hrest ▸ firstUncovers_append hfirst rest)) h.isFile
  have hwhole := wholeChunks_isPrefix (size - 1) before
  obtain ⟨habsorbs, -⟩ := absorbs_of_not_displaced hfs (hsteady.of_isPrefix hwhole)
    fun hfront => hbefore (hfront.of_isPrefix hwhole)
  apply h.1
  rw [renderedAfter, renderedAfter, ← batch_flattened, ← batch_flattened, habsorbs.fs,
    hsame (filesOf_isPrefix hwhole), hsame (wholeChunks_isPrefix _ _)]

/-- A source can be displaced only where the first write of a file uncovers another one. -/
theorem firstUncovers_of_displaced (hsteady : Steady options size fs sources)
    (h : Displaced options size fs sources) : FirstUncovers options fs (filesOf fs sources) := by
  induction sources using List.reverseRecOn with
  | nil =>
      obtain ⟨before, source, hinitial, -⟩ := h
      simpa using List.prefix_nil.mp hinitial
  | append_singleton before source ih =>
      have hinitial : before <+: before ++ [source] := List.prefix_append _ _
      have hsteadyBefore := hsteady.of_isPrefix hinitial
      obtain ⟨rest, hrest⟩ := filesOf_isPrefix hinitial
      rw [← hrest]
      apply firstUncovers_append
      by_cases hbefore : Displaced options size fs before
      · exact ih hsteadyBefore hbefore
      · exact ((displaced_concat_iff.mp h).resolve_left hbefore).firstUncovers hfs hreal
          hsteadyBefore hbefore

end Real

/-- In a dry run no source is displaced. -/
theorem not_displaced_dry (hdry : options.dryRun = true) : ¬Displaced options size fs sources := by
  rintro ⟨before, source, -, hreads, -⟩
  apply hreads
  rw [renderedAfter, renderedAfter, ← batch_flattened, ← batch_flattened, fs_flattened_dry hdry,
    fs_flattened_dry hdry]

/-- The run over all sources is that over the files, with the failures of the other sources, exactly
when no source is displaced, and a source is displaced only where the first write uncovers a
file. -/
theorem inChunks_absorbs_iff (hfs : fs.LinkFree) (hsteady : Steady options size fs sources) :
    (Absorbs (Refuses fs) sources (inChunks options size fs sources)
        (inChunks options size fs (filesOf fs sources)) ↔ ¬Displaced options size fs sources) ∧
      (Displaced options size fs sources → FirstUncovers options fs (filesOf fs sources)) := by
  cases hdry : options.dryRun with
  | true =>
      have hnone : ¬Displaced options size fs sources := not_displaced_dry hdry
      exact ⟨iff_of_true (absorbs_of_not_displaced hfs hsteady hnone).1 hnone,
        fun h => absurd h hnone⟩
  | false =>
      refine ⟨⟨?_, ?_⟩, firstUncovers_of_displaced hfs hdry hsteady⟩
      · intro habsorbs hdisplaced
        exact (parted_of_displaced hfs hdry hsteady hdisplaced).not_absorbs habsorbs
      · intro hnone
        exact (absorbs_of_not_displaced hfs hsteady hnone).1

/-- The lower one of two files of one name, a missing file, and the upper one. -/
def missingBetween : List Path :=
  [⟨['s', '/', 't', '/', 'a']⟩, ⟨['m']⟩, ⟨['s', '/', 'a']⟩]

-- In chunks of two the missing file puts the upper one into a chunk of its own, which is read after
-- the first write has replaced it.
example :
    (inChunks (numberedInto ⟨['n', '/', '.', '.', '/', 's']⟩) 2 twoFiles missingBetween).fs.get?
        [['s'], ['a', '_', '1']] ≠
      (inChunks (numberedInto ⟨['n', '/', '.', '.', '/', 's']⟩) 2 twoFiles
        (filesOf twoFiles missingBetween)).fs.get? [['s'], ['a', '_', '1']] := by
  decide +kernel

end TreeFold.Flatten
