import TreeFold.Proofs.Flatten.Run

/-!
# One source after the other

A chunk is rendered before it is written. As long as a source reads the same before and after the
writes between, rendering in chunks is rendering every source from one file system.
-/

namespace TreeFold

open FileSystem

namespace FileSystem

variable {fs later : FileSystem} {path : Path}

theorem exists_readText (h : fs.isFile path = true) : ∃ text, fs.readText path = .ok text := by
  obtain ⟨location, bytes, hstat⟩ := (isFile_iff fs path).mp h
  rw [readText, readBytes_ok_iff.mpr ⟨location, hstat⟩]
  exact ⟨_, rfl⟩

/-- A file reads the same in a file system that extends this one. -/
theorem readText_mono (hfs : fs.LinkFree) (hext : fs.Extends later)
    (h : fs.isFile path = true) : later.readText path = fs.readText path := by
  obtain ⟨location, bytes, hstat⟩ := (isFile_iff fs path).mp h
  rw [readText, readText, readBytes_ok_iff.mpr ⟨location, hstat⟩,
    readBytes_ok_iff.mpr ⟨location, stat_mono hfs hext hstat⟩]

end FileSystem

namespace Flatten

variable {options : Options} {fs later : FileSystem} {run : Run}

/-- The body that a source is flattened to. -/
def bodyOf (options : Options) (text : Text) : Text :=
  if options.stripComments then Comment.strip text else text

theorem render_ok_iff {source : Path} {rendered : Text} :
    render options fs source = .ok rendered ↔ ∃ text, fs.readText source = .ok text ∧
      rendered = header fs.workingDir source options.base ++ bodyOf options text := by
  rw [render]
  cases fs.readText source with
  | error e => simp
  | ok text =>
      constructor
      · intro h
        cases h
        exact ⟨text, rfl, rfl⟩
      · rintro ⟨found, hfound, rfl⟩
        cases hfound
        rfl

theorem exists_render (options : Options) {source : Path} (h : fs.isFile source = true) :
    ∃ text, render options fs source = .ok text := by
  obtain ⟨text, htext⟩ := exists_readText h
  rw [render, htext]
  exact ⟨_, rfl⟩

theorem render_mono (hfs : fs.LinkFree) (hext : fs.Extends later) {source : Path}
    (h : fs.isFile source = true) : render options later source = render options fs source := by
  rw [render, render, readText_mono hfs hext h, hext.workingDir]

/-- The run before the first source. -/
def begin (options : Options) (fs : FileSystem) : Run :=
  ⟨⟨fs, .empty⟩, .new options.outDir options.collision⟩

/-- Write the sources one after the other, each as it reads in one file system. -/
def oneByOne (options : Options) (fs : FileSystem) (run : Run) (sources : List Path) : Run :=
  sources.foldl (fun run source => writeRendered options run source (render options fs source)) run

@[simp]
theorem oneByOne_nil (options : Options) (fs : FileSystem) (run : Run) :
    oneByOne options fs run [] = run := rfl

@[simp]
theorem oneByOne_cons (options : Options) (fs : FileSystem) (run : Run) (source : Path)
    (rest : List Path) :
    oneByOne options fs run (source :: rest) =
      oneByOne options fs (writeRendered options run source (render options fs source)) rest := rfl

theorem oneByOne_append (options : Options) (fs : FileSystem) (run : Run)
    (front rest : List Path) :
    oneByOne options fs run (front ++ rest) =
      oneByOne options fs (oneByOne options fs run front) rest :=
  List.foldl_append

/-- A chunk is written as it reads when it is begun. -/
theorem writeChunk_eq (options : Options) (run : Run) (chunk : List Path) :
    writeChunk options run chunk = oneByOne options run.batch.fs run chunk := by
  rw [writeChunk, List.foldl_map]
  rfl

theorem oneByOne_congr {sources : List Path}
    (h : ∀ source ∈ sources, render options later source = render options fs source) (run : Run) :
    oneByOne options later run sources = oneByOne options fs run sources := by
  induction sources generalizing run with
  | nil => rfl
  | cons source rest ih =>
      rw [oneByOne_cons, oneByOne_cons, h source List.mem_cons_self]
      exact ih (fun s hs => h s (List.mem_cons_of_mem _ hs)) _

section Invariant

variable {P : Run → List Path → Prop}

/-- What each source keeps, a list of sources keeps. -/
theorem oneByOne_invariant
    (hstep : ∀ run source rest, P run (source :: rest) →
      P (writeRendered options run source (render options fs source)) rest)
    {front rest : List Path} (h : P run (front ++ rest)) :
    P (oneByOne options fs run front) rest := by
  induction front generalizing run with
  | nil => exact h
  | cons source front ih => exact ih (hstep run source (front ++ rest) h)

/-- What each chunk keeps, a list of chunks keeps. -/
theorem chunks_invariant
    (hchunk : ∀ run front rest, P run (front ++ rest) →
      P (oneByOne options run.batch.fs run front) rest)
    {size fuel : Nat} {sources : List Path} (hfuel : sources.length ≤ fuel)
    (h : P run sources) : P ((chunks size fuel sources).foldl (writeChunk options) run) [] := by
  induction fuel generalizing run sources with
  | zero =>
      have hnil := List.eq_nil_of_length_eq_zero (Nat.le_zero.mp hfuel)
      rw [hnil] at h ⊢
      rw [chunks]
      exact h
  | succ fuel ih =>
      cases sources with
      | nil =>
          rw [chunks]
          exact h
      | cons source rest =>
          have hlength : ((source :: rest).drop (size + 1)).length ≤ fuel := by
            rw [List.length_drop]
            omega
          rw [← List.take_append_drop (size + 1) (source :: rest)] at h
          rw [chunks, List.foldl_cons, writeChunk_eq]
          · exact ih hlength (hchunk _ _ _ h)
          · simp

/-- When every source that is left reads as in one file system, chunks make no difference. -/
theorem foldl_writeChunk
    (hrender : ∀ run rest, P run rest →
      ∀ source ∈ rest, render options run.batch.fs source = render options fs source)
    (hstep : ∀ run source rest, P run (source :: rest) →
      P (writeRendered options run source (render options fs source)) rest)
    {size fuel : Nat} {sources : List Path} (hfuel : sources.length ≤ fuel)
    (h : P run sources) :
    (chunks size fuel sources).foldl (writeChunk options) run =
      oneByOne options fs run sources := by
  have hchunk : ∀ now front rest,
      P now (front ++ rest) ∧
        oneByOne options fs now (front ++ rest) = oneByOne options fs run sources →
      P (oneByOne options now.batch.fs now front) rest ∧
        oneByOne options fs (oneByOne options now.batch.fs now front) rest =
          oneByOne options fs run sources := by
    rintro now front rest ⟨hnow, hrun⟩
    have hsame : oneByOne options now.batch.fs now front = oneByOne options fs now front :=
      oneByOne_congr (fun s hs => hrender now _ hnow s (List.mem_append_left _ hs)) now
    rw [hsame, ← oneByOne_append]
    exact ⟨oneByOne_invariant hstep hnow, hrun⟩
  exact (chunks_invariant (P := fun now rest => P now rest ∧
    oneByOne options fs now rest = oneByOne options fs run sources) hchunk hfuel ⟨h, rfl⟩).2

end Invariant

section Dry

variable (hdry : options.dryRun = true)
include hdry

/-- In a dry run a source changes no file. -/
theorem fs_writeRendered_dry (run : Run) (source : Path) (rendered : Except FileFailure Text) :
    (writeRendered options run source rendered).batch.fs = run.batch.fs := by
  cases rendered with
  | error failure => rfl
  | ok text =>
      cases hname : source.fileName? with
      | none => simp only [writeRendered, hname, Batch.fail]
      | some name =>
          simp only [writeRendered, hname, NameAllocator.allocate]
          cases run.names.choose? run.batch.fs name with
          | none => rfl
          | some destination => simp only [Batch.write, hdry, if_true]

theorem fs_oneByOne_dry (later : FileSystem) (run : Run) (sources : List Path) :
    (oneByOne options later run sources).batch.fs = run.batch.fs := by
  induction sources generalizing run with
  | nil => rfl
  | cons source rest ih => rw [oneByOne_cons, ih, fs_writeRendered_dry hdry]

/-- In a dry run the size of the chunks makes no difference. -/
theorem inChunks_dry (size : Nat) (fs : FileSystem) (sources : List Path) :
    inChunks options size fs sources =
      (oneByOne options fs (begin options fs) sources).batch := by
  have hrun : (chunks (size - 1) sources.length sources).foldl (writeChunk options)
      (begin options fs) = oneByOne options fs (begin options fs) sources := by
    apply foldl_writeChunk (P := fun run _ => run.batch.fs = fs) _ _ (Nat.le_refl _) rfl
    · intro run rest hrun source _
      rw [hrun]
    · intro run source rest hrun
      rw [fs_writeRendered_dry hdry, hrun]
  exact congrArg Run.batch hrun

end Dry

end Flatten

end TreeFold
