import Mathlib.Data.List.Forall2
import TreeFold.Proofs.FileSystem.Tree
import TreeFold.Proofs.Flatten.Sparing
import TreeFold.Proofs.Report
import TreeFold.Proofs.Text.Utf8

/-!
# Runs in which every source is written

When taken names are numbered and no write fails, every file becomes an output. The sources of the
first chunk are read before the first write. A later source reads as it did at the start, unless
it is the file that the first write uncovered and replaced.
-/

namespace TreeFold.Flatten

open Component TreeFold.Path FileSystem

variable {options : Options} {fs early later : FileSystem} {run next : Run} {source : Path}
  {front rest sources : List Path} {done : List Output}

theorem Step.writesSucceed {rendered : Except FileFailure Text}
    (hstep : Step options run source rendered next) (h : next.batch.report.WritesSucceed) :
    run.batch.report.WritesSucceed := by
  cases hstep with
  | unread failure => exact Report.writesSucceed_of_recordFailure h
  | unnamed text hname => exact Report.writesSucceed_of_recordFailure h
  | failed text name destination e after hname hchoose hwrite =>
      exact Report.writesSucceed_of_recordFailure h
  | skipped text name hname hchoose => exact h
  | written text name destination after hname hchoose hwrite => exact h

theorem writesSucceed_of_oneByOne (hreal : options.dryRun = false)
    (h : (oneByOne options later run sources).batch.report.WritesSucceed) :
    run.batch.report.WritesSucceed := by
  induction sources generalizing run with
  | nil => exact h
  | cons source rest ih => exact (step_writeRendered hreal run source _).writesSucceed (ih h)

theorem writesSucceed_of_chunks (hreal : options.dryRun = false) {parts : List (List Path)}
    (h : (parts.foldl (writeChunk options) run).batch.report.WritesSucceed) :
    run.batch.report.WritesSucceed := by
  induction parts generalizing run with
  | nil => exact h
  | cons chunk parts ih =>
      have hchunk := ih h
      rw [writeChunk_eq] at hchunk
      exact writesSucceed_of_oneByOne hreal hchunk

/-- With numbered names and no failed write, a named source that is rendered is written. -/
theorem Tracks.output_of_step {text : Text} {name : Name} (h : Tracks options fs run done)
    (hpolicy : options.collision = .renameWithSuffix) (hname : source.fileName? = some name)
    (hstep : Step options run source (.ok text) next)
    (hok : next.batch.report.WritesSucceed) :
    ∃ o : Output, o.WrittenBy run source (.ok text) ∧ Tracks options fs next (done ++ [o]) := by
  cases hstep with
  | unnamed text hnone =>
      rw [hname] at hnone
      cases hnone
  | skipped text found hfound hchoose =>
      exact absurd hchoose (NameAllocator.choose?_isSome (h.policy.trans hpolicy))
  | failed text found destination e after hfound hchoose hwrite =>
      exact absurd (List.mem_append_right _ List.mem_cons_self) (hok destination e)
  | written text found destination after hfound hchoose hwrite =>
      exact ⟨⟨source, destination, text⟩, ⟨rfl, rfl, found, after, hfound, hchoose, hwrite⟩,
        h.output (isEntryName_of_fileName? hfound) hchoose hwrite⟩

/-- A file that has a name. -/
def IsNamedFile (fs : FileSystem) (source : Path) : Prop :=
  fs.isFile source = true ∧ ∃ name, source.fileName? = some name

/-- Every source is written, as it reads in the later file system and where nothing was in the
early one. -/
theorem Tracks.oneByOne_all (hreal : options.dryRun = false)
    (hpolicy : options.collision = .renameWithSuffix) (h : Tracks options fs run done)
    (hkeeps : Keeps options early run (front ++ rest))
    (hfront : ∀ source ∈ front, IsNamedFile later source)
    (hok : (oneByOne options later run front).batch.report.WritesSucceed) :
    ∃ more, Tracks options fs (oneByOne options later run front) (done ++ more) ∧
      Keeps options early (oneByOne options later run front) rest ∧
      more.map (·.source) = front ∧
      ∀ o ∈ more, render options later o.source = .ok o.text ∧
        early.get? (o.destination.spelled early.workingDir) = none := by
  induction front generalizing run done with
  | nil => exact ⟨[], by simpa using h, hkeeps, rfl, by simp⟩
  | cons source front ih =>
      obtain ⟨hfile, name, hname⟩ := hfront source List.mem_cons_self
      obtain ⟨text, htext⟩ := exists_render options hfile
      have hstep := step_writeRendered hreal run source (render options later source)
      rw [oneByOne_cons] at hok ⊢
      rw [htext] at hstep hok ⊢
      have hnext := writesSucceed_of_oneByOne hreal hok
      obtain ⟨o, ho, htracks⟩ := h.output_of_step hpolicy hname hstep hnext
      obtain ⟨more, hmore, hlast, hsources, houts⟩ := ih htracks (hkeeps.step hstep)
        (fun s hs => hfront s (List.mem_cons_of_mem _ hs)) hok
      have hfresh := hkeeps.fresh ho
      obtain ⟨hsource, hotext, -⟩ := ho
      rw [List.append_assoc] at hmore
      refine ⟨o :: more, hmore, hlast, by rw [List.map_cons, hsource, hsources], fun p hp => ?_⟩
      rcases List.mem_cons.mp hp with rfl | hp
      · rw [hsource, htext, hotext]
        exact ⟨rfl, hfresh⟩
      · exact houts p hp

/-- The place of the file that the first write replaces, and the text put there. -/
def replaced? (options : Options) (fs : FileSystem) : List Path → Option (Location × Text)
  | [] => none
  | first :: _ =>
    match first.fileName?, render options fs first with
    | some name, .ok rendered =>
      if fs.uncoversFile (options.outDir.child name) then
        some ((options.outDir.child name).spelled fs.workingDir, rendered)
      else none
    | _, _ => none

/-- What a source reads as when the first chunk is written. -/
def laterText? (options : Options) (fs : FileSystem) (sources : List Path) (source : Path) :
    Option Text :=
  match replaced? options fs sources with
  | some (location, rendered) =>
    if source.lexicalLocation? fs.workingDir = some location then some rendered
    else (fs.readText source).toOption
  | none => (fs.readText source).toOption

/-- The sources with what they read as when their turns come. -/
def turns (options : Options) (fs : FileSystem) (sources : List Path) :
    List (Path × Option Text) :=
  (sources.take chunkSize).map (fun source => (source, (fs.readText source).toOption)) ++
    (sources.drop chunkSize).map fun source => (source, laterText? options fs sources source)

/-- A later source reads as the text put at its place, or as it did at the start. -/
theorem laterText?_eq_some {text : Text} (h : laterText? options fs sources source = some text) :
    (∃ location, replaced? options fs sources = some (location, text) ∧
      source.lexicalLocation? fs.workingDir = some location) ∨ fs.readText source = .ok text := by
  have hstart : (fs.readText source).toOption = some text → fs.readText source = .ok text := by
    intro hread
    cases hresult : fs.readText source <;> simp_all [Except.toOption]
  rw [laterText?] at h
  split at h
  · rename_i location rendered hreplaced
    by_cases hlocation : source.lexicalLocation? fs.workingDir = some location
    · rw [if_pos hlocation] at h
      obtain rfl := Option.some.inj h
      exact Or.inl ⟨location, hreplaced, hlocation⟩
    · rw [if_neg hlocation] at h
      exact Or.inr (hstart h)
  · exact Or.inr (hstart h)

theorem laterText?_of_replaced {text : Text} {location : Location}
    (h : replaced? options fs sources = some (location, text))
    (hlocation : source.lexicalLocation? fs.workingDir = some location) :
    laterText? options fs sources source = some text := by
  simp only [laterText?, h, hlocation, if_true]

/-- A file can be read when its turn comes. -/
theorem exists_laterText? {text : Text} (h : fs.readText source = .ok text) :
    ∃ later, laterText? options fs sources source = some later := by
  rw [laterText?, h]
  split
  · split
    · exact ⟨_, rfl⟩
    · exact ⟨text, rfl⟩
  · exact ⟨text, rfl⟩

/-- The output is what a source is flattened to, as it reads when its turn comes. -/
def Output.Flattens (options : Options) (fs : FileSystem) (turn : Path × Option Text)
    (o : Output) : Prop :=
  o.source = turn.1 ∧ ∃ text, turn.2 = some text ∧
    o.text = header fs.workingDir turn.1 options.base ++ bodyOf options text

/-- The first output takes the path of its name when that path uncovers a file, and otherwise goes
where nothing was. No later output goes where a file was. -/
structure Begun (options : Options) (fs : FileSystem) (first : Path) (name : Name) (run : Run)
    (o : Output) (more : List Output) : Prop where
  named : first.fileName? = some name
  rendered : render options fs first = .ok o.text
  tracks : Tracks options fs run (o :: more)
  uncovered : fs.uncoversFile (options.outDir.child name) = true →
    o.destination = options.outDir.child name
  fresh : fs.uncoversFile (options.outDir.child name) = false →
    fs.get? (o.destination.spelled fs.workingDir) = none
  later : ∀ p ∈ more, ∀ bytes,
    fs.get? (p.destination.spelled fs.workingDir) ≠ some (.file bytes)

/-- The first source of a run in which every source is written. -/
theorem exists_begun (hfs : fs.LinkFree) (hreal : options.dryRun = false)
    (hpolicy : options.collision = .renameWithSuffix) {name : Name}
    (hfile : fs.isFile source = true) (hname : source.fileName? = some name)
    (hok : (writeRendered options (begin options fs) source
      (render options fs source)).batch.report.WritesSucceed) :
    ∃ o : Output, o.source = source ∧ Begun options fs source name
      (writeRendered options (begin options fs) source (render options fs source)) o [] := by
  obtain ⟨text, htext⟩ := exists_render options hfile
  have hstep := step_writeRendered hreal (begin options fs) source (render options fs source)
  rw [htext] at hstep hok ⊢
  have hstart : Tracks options fs (begin options fs) [] := .start hfs
  obtain ⟨o, ho, htracks⟩ := hstart.output_of_step hpolicy hname hstep hok
  refine ⟨o, ho.1, hname, htext.trans ho.2.1, htracks, fun huncovers => ?_, fun hsafe => ?_,
    by simp⟩
  · obtain ⟨-, -, found, after, hfound, hchoose, -⟩ := ho
    obtain rfl := Option.some.inj (hname.symm.trans hfound)
    have hentry := isEntryName_of_fileName? hname
    have hsettled : ¬fs.Settled options.outDir := by
      intro hsettled
      rw [hsettled.uncoversFile hentry] at huncovers
      cases huncovers
    have hdirect : (begin options fs).names.choose? fs name = some (options.outDir.child name) :=
      NameAllocator.choose?_of_not_settled hfs rfl hsettled hentry
    exact Option.some.inj (hchoose.symm.trans hdirect)
  · have hnone : ¬FirstUncovers options fs [source] := by
      rintro ⟨found, hfound, huncovers⟩
      rw [List.findSome?_cons, hname] at hfound
      obtain rfl := Option.some.inj hfound
      rw [hsafe] at huncovers
      cases huncovers
    exact (keeps_begin hfs hnone).fresh ho

/-- The first output replaces a file exactly when the path of its name uncovers one. -/
theorem Begun.replaced?_eq {first : Path} {name : Name} {o : Output} {more : List Output}
    (h : Begun options fs first name run o more) (others : List Path) :
    replaced? options fs (first :: others) =
      if fs.uncoversFile (options.outDir.child name) then
        some (o.destination.spelled fs.workingDir, o.text)
      else none := by
  simp only [replaced?, h.named, h.rendered]
  split
  · rename_i huncovers
    rw [h.uncovered huncovers]
  · rfl

/-- After the first chunk, a later source reads as it did, or as the first output does. -/
theorem Begun.readText_later {first : Path} {name : Name} {o : Output} {more : List Output}
    (h : Begun options fs first name run o more) (hfs : fs.LinkFree)
    (hfile : fs.isFile source = true) (others : List Path) :
    ∃ text, run.batch.fs.readText source = .ok text ∧
      laterText? options fs (first :: others) source = some text := by
  obtain ⟨location, bytes, hstat⟩ := (isFile_iff fs source).mp hfile
  obtain ⟨-, hget, -⟩ := stat_ok hfs hstat
  have hlocation := lexicalLocation?_of_stat hfs hstat
  obtain ⟨held, hheld, hlater⟩ := stat_file_retains hfs h.tracks.wrote.retains hstat
  have hread : run.batch.fs.readText source = .ok (Text.decodeLossy held) := by
    rw [readText, readBytes_ok_iff.mpr ⟨location, hlater⟩]
    rfl
  refine ⟨_, hread, ?_⟩
  rw [laterText?, h.replaced?_eq others, hlocation]
  by_cases hhit : o.destination.spelled fs.workingDir = location
  · -- The source is the file that the first output has replaced.
    have huncovers : fs.uncoversFile (options.outDir.child name) = true := by
      by_contra hsafe
      have hnone := h.fresh (Bool.not_eq_true _ ▸ hsafe)
      rw [hhit, hget] at hnone
      cases hnone
    have hout := h.tracks.get?_output (List.mem_cons_self)
    rw [hhit, hheld] at hout
    obtain rfl := Entry.file.inj (Option.some.inj hout)
    rw [if_pos huncovers, hhit, Text.decodeLossy_encodeUtf8]
    exact if_pos rfl
  · have hsame : fs.get? location = some (.file held) := by
      apply (h.tracks.file_iff_of_ne _).mp hheld
      intro p hp heq
      rcases List.mem_cons.mp hp with rfl | hp
      · exact hhit heq
      · exact h.later p hp bytes (heq ▸ hget)
    rw [hget] at hsame
    obtain rfl := Entry.file.inj (Option.some.inj hsame)
    have hstart : (fs.readText source).toOption = some (Text.decodeLossy bytes) := by
      rw [readText, readBytes_ok_iff.mpr ⟨location, hstat⟩]
      rfl
    rw [hstart]
    by_cases huncovers : fs.uncoversFile (options.outDir.child name) = true
    · rw [if_pos huncovers]
      exact if_neg fun heq => hhit (Option.some.inj heq).symm
    · rw [if_neg huncovers]

/-- The outputs of the first chunk, the first of them apart. -/
theorem Begun.oneByOne_all (hreal : options.dryRun = false)
    (hpolicy : options.collision = .renameWithSuffix) {first : Path} {name : Name} {o : Output}
    (h : Begun options fs first name run o [])
    (hfront : ∀ source ∈ front, IsNamedFile fs source)
    (hok : (oneByOne options fs run front).batch.report.WritesSucceed) (rest : List Path) :
    ∃ more, Begun options fs first name (oneByOne options fs run front) o more ∧
      Ready options (oneByOne options fs run front) rest ∧ more.map (·.source) = front ∧
      ∀ p ∈ more, render options fs p.source = .ok p.text := by
  have hleads := h.tracks.leads (List.cons_ne_nil _ _)
  have hkeeps : Keeps options run.batch.fs run (front ++ rest) :=
    ⟨h.tracks.wrote.linkFree, h.tracks.directory, .refl _,
      Or.inl (settled_of_leads h.tracks.wrote.linkFree hleads)⟩
  obtain ⟨more, htracks, hlast, hsources, houts⟩ :=
    h.tracks.oneByOne_all hreal hpolicy hkeeps hfront hok
  refine ⟨more, { h with tracks := htracks, later := fun p hp bytes hget => ?_ }, hlast.ready,
    hsources, fun p hp => (houts p hp).1⟩
  obtain ⟨held, hheld⟩ := h.tracks.wrote.retains.file _ bytes hget
  have hnone := (houts p hp).2
  rw [h.tracks.wrote.workingDir, hheld] at hnone
  cases hnone

/-- The first chunk is rendered from the file system at the start. -/
theorem files_cons (options : Options) (fs : FileSystem) (first : Path) (others : List Path) :
    files options fs (first :: others) =
      ((chunks (chunkSize - 1) others.length ((first :: others).drop chunkSize)).foldl
        (writeChunk options)
        (oneByOne options fs (begin options fs) ((first :: others).take chunkSize))).batch := by
  have hchunks : chunks (chunkSize - 1) (others.length + 1) (first :: others) =
      (first :: others).take chunkSize ::
        chunks (chunkSize - 1) others.length ((first :: others).drop chunkSize) := rfl
  rw [files, inChunks, List.length_cons, hchunks, List.foldl_cons, writeChunk_eq]
  rfl

/-- Every source of a complete run is flattened as it reads when its turn comes. -/
theorem exists_outputs (hfs : fs.LinkFree) (hreal : options.dryRun = false)
    (hpolicy : options.collision = .renameWithSuffix)
    (hsources : ∀ source ∈ sources, IsNamedFile fs source)
    (hok : (files options fs sources).report.WritesSucceed) :
    ∃ run done, files options fs sources = run.batch ∧ Tracks options fs run done ∧
      List.Forall₂ (fun turn o => o.Flattens options fs turn) (turns options fs sources) done := by
  cases sources with
  | nil => exact ⟨begin options fs, [], rfl, .start hfs, .nil⟩
  | cons first others =>
      obtain ⟨hfile, name, hname⟩ := hsources first List.mem_cons_self
      have hback : ∀ source ∈ (first :: others).drop chunkSize, IsNamedFile fs source :=
        fun source hsource => hsources source (List.mem_of_mem_drop hsource)
      have hlength : ((first :: others).drop chunkSize).length ≤ others.length := by
        rw [List.length_drop, List.length_cons, chunkSize]
        omega
      have hnamed : ∀ source ∈ others.take (chunkSize - 1), IsNamedFile fs source :=
        fun source hsource =>
          hsources source (List.mem_cons_of_mem _ (List.mem_of_mem_take hsource))
      have htake : (first :: others).take chunkSize = first :: others.take (chunkSize - 1) := rfl
      rw [files_cons] at hok ⊢
      rw [htake, oneByOne_cons] at hok ⊢
      have hmiddle := writesSucceed_of_chunks hreal hok
      obtain ⟨o, hfirst, hbegun⟩ := exists_begun hfs hreal hpolicy hfile hname
        (writesSucceed_of_oneByOne hreal hmiddle)
      obtain ⟨more, hbegun, hready, hmore, hrendered⟩ := hbegun.oneByOne_all hreal hpolicy hnamed
        hmiddle ((first :: others).drop chunkSize)
      generalize oneByOne options fs _ (others.take (chunkSize - 1)) = middle at hok hbegun hready ⊢
      have hlink := hbegun.tracks.wrote.linkFree
      have hlater : ∀ source ∈ (first :: others).drop chunkSize,
          IsNamedFile middle.batch.fs source := by
        intro source hsource
        obtain ⟨hfile, hnamed⟩ := hback source hsource
        exact ⟨isFile_retains hfs hbegun.tracks.wrote.retains hfile, hnamed⟩
      have hkeeps : KeepsFiles options middle.batch.fs middle
          ((first :: others).drop chunkSize ++ []) := by
        rw [List.append_nil]
        exact ⟨fun source hsource => (hlater source hsource).1, hlink, hbegun.tracks.directory,
          .refl _, hready⟩
      rw [KeepsFiles.foldl_writeChunk hlink hreal (by simpa using hkeeps) hlength] at hok ⊢
      obtain ⟨rest, htracks, -, hrest, houts⟩ :=
        hbegun.tracks.oneByOne_all hreal hpolicy hkeeps.2 hlater hok
      have hfront : (first :: others).take chunkSize = (o :: more).map (·.source) := by
        rw [htake, List.map_cons, hfirst, hmore]
      refine ⟨_, o :: more ++ rest, rfl, htracks, ?_⟩
      rw [turns, hfront, ← hrest, List.map_map, List.map_map]
      apply List.rel_append
      · rw [List.forall₂_map_left_iff, List.forall₂_same]
        intro p hp
        have hrender : render options fs p.source = .ok p.text := by
          rcases List.mem_cons.mp hp with rfl | hp
          · rw [hfirst]
            exact hbegun.rendered
          · exact hrendered p hp
        obtain ⟨text, hread, htext⟩ := render_ok_iff.mp hrender
        exact ⟨rfl, text, by simp [hread, Except.toOption], htext⟩
      · rw [List.forall₂_map_left_iff, List.forall₂_same]
        intro p hp
        have hsource : p.source ∈ (first :: others).drop chunkSize :=
          hrest ▸ List.mem_map_of_mem hp
        obtain ⟨text, hread, hlaterText⟩ :=
          hbegun.readText_later hfs (hback p.source hsource).1 others
        obtain ⟨found, hfound, htext⟩ := render_ok_iff.mp (houts p hp).1
        obtain rfl := Except.ok.inj (hread.symm.trans hfound)
        rw [hbegun.tracks.wrote.workingDir] at htext
        exact ⟨rfl, text, hlaterText, htext⟩

end TreeFold.Flatten
