import Mathlib.Data.List.Pairwise
import TreeFold.Proofs.FileSystem.Writes
import TreeFold.Proofs.Flatten.Names

/-!
# What a real run does

One source is a failure, is skipped, or is given a path and written there. What a whole run has
done is told by its outputs: they are different entries of the output directory, each holds its
text, and the file system differs from the one at the start by these writes only.
-/

namespace TreeFold

open Component TreeFold.Path FileSystem

namespace NameAllocator

/-- The allocator after a path is given out. -/
def claim (names : NameAllocator) (path : Path) : NameAllocator :=
  { names with claimed := path.components :: names.claimed }

end NameAllocator

namespace Flatten

variable {options : Options} {fs : FileSystem} {run next : Run} {source : Path}
  {rendered : Except FileFailure Text}

/-- What a source does to a real run. -/
inductive Step (options : Options) (run : Run) (source : Path) :
    Except FileFailure Text → Run → Prop
  | unread (failure : FileFailure) :
      Step options run source (.error failure)
        ⟨⟨run.batch.fs, run.batch.report.recordInput.recordFailure failure⟩, run.names⟩
  | unnamed (text : Text) (hname : source.fileName? = none) :
      Step options run source (.ok text)
        ⟨⟨run.batch.fs, run.batch.report.recordInput.recordFailure (.missing source)⟩, run.names⟩
  | skipped (text : Text) (name : Name) (hname : source.fileName? = some name)
      (hchoose : run.names.choose? run.batch.fs name = none) :
      Step options run source (.ok text)
        ⟨⟨run.batch.fs,
          run.batch.report.recordInput.recordSkip (skipMessage options source name)⟩, run.names⟩
  | failed (text : Text) (name : Name) (destination : Path) (e : Error) (after : FileSystem)
      (hname : source.fileName? = some name)
      (hchoose : run.names.choose? run.batch.fs name = some destination)
      (hwrite : run.batch.fs.overwrite destination text = ⟨some e, after⟩) :
      Step options run source (.ok text)
        ⟨⟨after, run.batch.report.recordInput.recordFailure (.write destination e)⟩,
          run.names.claim destination⟩
  | written (text : Text) (name : Name) (destination : Path) (after : FileSystem)
      (hname : source.fileName? = some name)
      (hchoose : run.names.choose? run.batch.fs name = some destination)
      (hwrite : run.batch.fs.overwrite destination text = ⟨none, after⟩) :
      Step options run source (.ok text)
        ⟨⟨after, run.batch.report.recordInput.recordWrite destination⟩,
          run.names.claim destination⟩

/-- Naming and writing a source is one of these steps. -/
theorem step_writeRendered (hreal : options.dryRun = false) (run : Run) (source : Path)
    (rendered : Except FileFailure Text) :
    Step options run source rendered (writeRendered options run source rendered) := by
  cases rendered with
  | error failure => exact .unread failure
  | ok text =>
      cases hname : source.fileName? with
      | none =>
          simp only [writeRendered, hname]
          exact .unnamed text hname
      | some name =>
          simp only [writeRendered, hname, NameAllocator.allocate]
          cases hchoose : run.names.choose? run.batch.fs name with
          | none => exact .skipped text name hname hchoose
          | some destination =>
              simp only [Batch.write, hreal, Bool.false_eq_true, if_false]
              rcases hwrite : run.batch.fs.overwrite destination text with ⟨_ | e, after⟩
              · exact .written text name destination after hname hchoose hwrite
              · exact .failed text name destination e after hname hchoose hwrite

/-- A source that was written, with its path and the text. -/
structure Output where
  source : Path
  destination : Path
  text : Text

/-- The output is what the run wrote for the source. -/
def Output.WrittenBy (o : Output) (run : Run) (source : Path)
    (rendered : Except FileFailure Text) : Prop :=
  o.source = source ∧ rendered = .ok o.text ∧ ∃ name after, source.fileName? = some name ∧
    run.names.choose? run.batch.fs name = some o.destination ∧
    run.batch.fs.overwrite o.destination o.text = ⟨none, after⟩

/-- The path is an entry of the directory that can be asked for. -/
def IsEntryOf (dir path : Path) : Prop :=
  ∃ name, IsEntryName name ∧ Text.byteLength name ≤ maxNameLength ∧
    checkPath (dir.child name) = .ok () ∧ path = dir.child name

theorem IsEntryOf.spelled_inj {dir a b : Path} {workingDir : Location} (ha : IsEntryOf dir a)
    (hb : IsEntryOf dir b) (h : a.spelled workingDir = b.spelled workingDir) : a = b := by
  obtain ⟨x, hx, -, -, rfl⟩ := ha
  obtain ⟨y, hy, -, -, rfl⟩ := hb
  rw [spelled_child_name _ _ hx, spelled_child_name _ _ hy] at h
  have hnames : [x] = [y] := List.append_cancel_left h
  rw [List.cons.inj hnames |>.1]

/-- The outputs are what a real run has done since the file system it started from. -/
structure Tracks (options : Options) (fs : FileSystem) (run : Run) (done : List Output) :
    Prop where
  directory : run.names.directory = options.outDir
  policy : run.names.policy = options.collision
  wrote : Wrote fs (done.map fun o => (o.destination, o.text)) run.batch.fs
  outputs : run.batch.report.outputs = done.map (·.destination)
  written : run.batch.report.written = done.length
  claimed : ∀ o ∈ done, o.destination.components ∈ run.names.claimed
  distinct : done.Pairwise fun a b => a.destination.components ≠ b.destination.components
  entries : ∀ o ∈ done, IsEntryOf options.outDir o.destination
  leads : done ≠ [] → run.batch.fs.Leads options.outDir
  unskipped : options.collision = .renameWithSuffix → run.batch.report.skipped = 0

namespace Tracks

variable {done : List Output}

/-- A run that starts has done nothing. -/
theorem start (hfs : fs.LinkFree) :
    Tracks options fs ⟨⟨fs, .empty⟩, .new options.outDir options.collision⟩ [] where
  directory := rfl
  policy := rfl
  wrote := .nil hfs
  outputs := rfl
  written := rfl
  claimed := by simp
  distinct := .nil
  entries := by simp
  leads := fun h => absurd rfl h
  unskipped := fun _ => rfl

/-- A source that fails before it is given a path changes the report only. -/
theorem refused (h : Tracks options fs run done) (failure : FileFailure) :
    Tracks options fs
      ⟨⟨run.batch.fs, run.batch.report.recordInput.recordFailure failure⟩, run.names⟩ done :=
  { h with }

/-- A source is skipped only when names are not to be numbered. -/
theorem skipped (h : Tracks options fs run done) {name : Name}
    (hchoose : run.names.choose? run.batch.fs name = none) (warning : Text) :
    Tracks options fs
      ⟨⟨run.batch.fs, run.batch.report.recordInput.recordSkip warning⟩, run.names⟩ done :=
  { h with
    unskipped := fun hpolicy => absurd hchoose
      (NameAllocator.choose?_isSome (h.policy.trans hpolicy)) }

/-- A write that fails gives out its path and makes directories at most. -/
theorem failed (h : Tracks options fs run done) {destination : Path} {text : Text} {e : Error}
    {after : FileSystem}
    (hwrite : run.batch.fs.overwrite destination text = ⟨some e, after⟩) :
    Tracks options fs
      ⟨⟨after, run.batch.report.recordInput.recordFailure (.write destination e)⟩,
        run.names.claim destination⟩ done where
  directory := h.directory
  policy := h.policy
  wrote := h.wrote.failed hwrite
  outputs := h.outputs
  written := h.written
  claimed := fun o ho => List.mem_cons_of_mem _ (h.claimed o ho)
  distinct := h.distinct
  entries := h.entries
  leads := by
    intro hne
    rw [overwrite_some hwrite]
    exact (h.leads hne).extends (addsDirectories_makeParents _ _).toExtends
  unskipped := h.unskipped

/-- A write that succeeds is one output more. -/
theorem output (h : Tracks options fs run done) {name : Name} {destination : Path} {text : Text}
    {after : FileSystem} (hname : IsEntryName name)
    (hchoose : run.names.choose? run.batch.fs name = some destination)
    (hwrite : run.batch.fs.overwrite destination text = ⟨none, after⟩) :
    Tracks options fs
      ⟨⟨after, run.batch.report.recordInput.recordWrite destination⟩,
        run.names.claim destination⟩ (done ++ [⟨source, destination, text⟩]) := by
  obtain ⟨given, hgiven, hdestination, hfree, -⟩ := NameAllocator.choose?_eq_some hname hchoose
  rw [h.directory] at hdestination
  subst hdestination
  obtain ⟨made, hparents, hplace, -⟩ := overwrite_none h.wrote.linkFree hwrite
  have hmade := (addsDirectories_of_makeParents hparents).linkFree h.wrote.linkFree
  obtain ⟨hcheck, hfits, -⟩ := leads_of_place_child hmade hgiven hplace
  refine ⟨h.directory, h.policy, ?_, ?_, ?_, ?_, ?_, ?_, fun _ => ?_, h.unskipped⟩
  · rw [List.map_append]
    exact h.wrote.written hwrite
  · rw [List.map_append, ← h.outputs]
    rfl
  · rw [List.length_append, ← h.written]
    rfl
  · intro o ho
    rcases List.mem_append.mp ho with ho | ho
    · exact List.mem_cons_of_mem _ (h.claimed o ho)
    · rw [List.mem_singleton.mp ho]
      exact List.mem_cons_self
  · rw [List.pairwise_append]
    refine ⟨h.distinct, List.pairwise_singleton _ _, ?_⟩
    intro a ha b hb heq
    rw [List.mem_singleton.mp hb] at heq
    exact hfree (heq ▸ h.claimed a ha)
  · intro o ho
    rcases List.mem_append.mp ho with ho | ho
    · exact h.entries o ho
    · rw [List.mem_singleton.mp ho]
      exact ⟨given, hgiven, hfits, hcheck, rfl⟩
  · exact leads_of_overwrite h.wrote.linkFree hgiven hwrite

/-- A run without a new output. -/
theorem unchanged (h : Tracks options fs run done) {P : Output → Prop} :
    ∃ new : Option Output, Tracks options fs run (done ++ new.toList) ∧ ∀ o ∈ new, P o := by
  refine ⟨none, ?_, by simp⟩
  rw [Option.toList_none, List.append_nil]
  exact h

/-- A step adds at most the output for its source. -/
theorem step (h : Tracks options fs run done) (hstep : Step options run source rendered next) :
    ∃ new : Option Output, Tracks options fs next (done ++ new.toList) ∧
      ∀ o ∈ new, o.WrittenBy run source rendered := by
  cases hstep with
  | unread failure => exact (h.refused failure).unchanged
  | unnamed text hname => exact (h.refused (.missing source)).unchanged
  | skipped text name hname hchoose =>
      exact (h.skipped hchoose _).unchanged
  | failed text name destination e after hname hchoose hwrite => exact (h.failed hwrite).unchanged
  | written text name destination after hname hchoose hwrite =>
      refine ⟨some ⟨source, destination, text⟩, ?_, fun o ho => ?_⟩
      · exact h.output (isEntryName_of_fileName? hname) hchoose hwrite
      · obtain rfl := Option.some.inj ho
        exact ⟨rfl, rfl, name, after, hname, hchoose, hwrite⟩

/-- Outputs at one location are one output. -/
theorem output_inj (h : Tracks options fs run done) {a b : Output} (ha : a ∈ done)
    (hb : b ∈ done)
    (heq : a.destination.spelled fs.workingDir = b.destination.spelled fs.workingDir) : a = b := by
  by_contra hne
  have hpath := (h.entries a ha).spelled_inj (h.entries b hb) heq
  have hsymm : Std.Symm fun x y : Output =>
      x.destination.components ≠ y.destination.components := ⟨fun _ _ hxy he => hxy he.symm⟩
  exact h.distinct.forall ha hb hne (by rw [hpath])

/-- Every output holds its text. -/
theorem get?_output (h : Tracks options fs run done) {o : Output} (ho : o ∈ done) :
    run.batch.fs.get? (o.destination.spelled fs.workingDir) =
      some (.file (Text.encodeUtf8 o.text)) := by
  rw [h.wrote.file_iff]
  cases hlast : lastWrite fs.workingDir (done.map fun o => (o.destination, o.text))
      (o.destination.spelled fs.workingDir) with
  | none =>
      exact absurd rfl (lastWrite_eq_none_iff.mp hlast _ (List.mem_map_of_mem ho))
  | some text =>
      obtain ⟨path, hmem, hpath⟩ := mem_of_lastWrite hlast
      obtain ⟨other, hother, heq⟩ := List.mem_map.mp hmem
      obtain ⟨rfl, rfl⟩ := Prod.mk.inj heq
      rw [h.output_inj hother ho hpath]

/-- Every output can be read. -/
theorem stat_output (h : Tracks options fs run done) {o : Output} (ho : o ∈ done) :
    run.batch.fs.stat o.destination =
      .ok (o.destination.spelled fs.workingDir, .file (Text.encodeUtf8 o.text)) := by
  have hget := h.get?_output ho
  obtain ⟨name, hname, hfits, hcheck, hpath⟩ := h.entries o ho
  have hplace := place_child h.wrote.linkFree hname hcheck hfits
    (h.leads (List.ne_nil_of_mem ho))
  rw [hpath, spelled_child_name _ _ hname] at hget ⊢
  rw [h.wrote.workingDir] at hplace
  rw [stat_eq, hplace, hget]

/-- A file that is not an output is as it was. -/
theorem file_iff_of_ne (h : Tracks options fs run done) {location : Location}
    {bytes : List UInt8}
    (hne : ∀ o ∈ done, o.destination.spelled fs.workingDir ≠ location) :
    run.batch.fs.get? location = some (.file bytes) ↔ fs.get? location = some (.file bytes) := by
  apply h.wrote.file_iff_of_ne
  intro write hwrite
  obtain ⟨o, ho, rfl⟩ := List.mem_map.mp hwrite
  exact hne o ho

end Tracks

end Flatten

end TreeFold
