import Mathlib.Data.List.Forall2
import Mathlib.Data.List.Induction
import TreeFold.Proofs.Flatten.Sparing

/-!
# Flattening is faithful

A real run keeps the files that were there, makes one new file for each source that it counts as
written, and puts the header and the body of the source into it. This holds exactly when the first
write does not uncover a file.

## Implementation notes

An output directory that steps out of a missing directory, as in `new/../old`, names nothing until
the missing directory is made. The name of the first output is looked up before that. A file of
the same name in `old` is therefore not seen, and it is replaced. Later names are looked up in the
directory that is there by then.
-/

namespace TreeFold.Flatten

open Component TreeFold.Path FileSystem Text

/-- The sources counted as written, in their order: those that raise the count. -/
def writtenSources (options : Options) (fs : FileSystem) (sources : List Path) : List Path :=
  (List.range sources.length).filterMap fun i =>
    if (files options fs (sources.take i)).report.written <
        (files options fs (sources.take (i + 1))).report.written
    then sources[i]? else none

/-- A batch leaves what was there and adds one file for each source it counts as written. -/
structure Faithful (options : Options) (fs : FileSystem) (sources : List Path) (batch : Batch) :
    Prop where
  keeps : ∀ location bytes, fs.get? location = some (.file bytes) →
    batch.fs.get? location = some (.file bytes)
  distinct : batch.report.outputs.Pairwise fun a b => ¬a.same b
  inside : ∀ output ∈ batch.report.outputs,
    ∃ name, IsEntryName name ∧ output = options.outDir.child name
  fresh : ∀ output ∈ batch.report.outputs, ∃ location,
    output.lexicalLocation? fs.workingDir = some location ∧ fs.get? location = none
  holds : List.Forall₂ (fun source output => ∃ text, fs.readText source = .ok text ∧
      batch.fs.readBytes output = .ok (encodeUtf8
        (header fs.workingDir source options.base ++ bodyOf options text)))
    (writtenSources options fs sources) batch.report.outputs
  created : ∀ location bytes, batch.fs.get? location = some (.file bytes) →
    fs.get? location = some (.file bytes) ∨ ∃ output ∈ batch.report.outputs,
      output.lexicalLocation? fs.workingDir = some location
  unskipped : options.collision = .renameWithSuffix → batch.report.skipped = 0

variable {options : Options} {fs : FileSystem} {sources : List Path}

theorem firstUncovers_append {front : List Path} (h : FirstUncovers options fs front)
    (rest : List Path) : FirstUncovers options fs (front ++ rest) := by
  obtain ⟨name, hname, huncovers⟩ := h
  exact ⟨name, by rw [List.findSome?_append, hname, Option.some_or], huncovers⟩

theorem isEntryName_of_findSome? {name : Name}
    (h : sources.findSome? Path.fileName? = some name) : IsEntryName name := by
  obtain ⟨source, -, hname⟩ := List.exists_of_findSome?_eq_some h
  exact isEntryName_of_fileName? hname

theorem IsEntryOf.lexicalLocation?_eq {dir path : Path} (h : IsEntryOf dir path)
    (workingDir : Location) :
    path.lexicalLocation? workingDir = some (path.spelled workingDir) := by
  obtain ⟨name, hname, -, -, rfl⟩ := h
  rw [Path.lexicalLocation?_eq, if_neg (ne_nil_of_child dir hname)]

/-- One source more is counted when the count rises. -/
theorem writtenSources_concat (options : Options) (fs : FileSystem) (front : List Path)
    (source : Path) :
    writtenSources options fs (front ++ [source]) =
      writtenSources options fs front ++
        if (files options fs front).report.written <
            (files options fs (front ++ [source])).report.written
        then [source] else [] := by
  rw [writtenSources, List.length_append, List.length_singleton, List.range_succ,
    List.filterMap_append]
  congr 1
  · apply List.filterMap_congr
    intro i hi
    have hlt : i < front.length := List.mem_range.mp hi
    rw [List.take_append_of_le_length (Nat.le_of_lt hlt), List.take_append_of_le_length hlt,
      List.getElem?_append_left hlt]
  · have hfull : (front ++ [source]).take (front.length + 1) = front ++ [source] :=
      List.take_of_length_le (by simp)
    rw [List.filterMap_cons, List.take_left, hfull, List.getElem?_concat_length]
    by_cases hcount : (files options fs front).report.written <
        (files options fs (front ++ [source])).report.written <;> simp [hcount]

/-- A run that spares what was there is faithful. -/
theorem Spares.faithful {run : Run} {done : List Output} (h : Spares options fs run done [])
    (hdone : done.map (·.source) = writtenSources options fs sources)
    (htexts : ∀ o ∈ done, render options fs o.source = .ok o.text) :
    Faithful options fs sources run.batch where
  keeps := fun location bytes hget => h.keeps.keeps.keeps location _ hget
  distinct := by
    rw [h.tracks.outputs, List.pairwise_map]
    exact h.tracks.distinct.imp fun hne hsame => hne (of_decide_eq_true hsame)
  inside := by
    intro output houtput
    rw [h.tracks.outputs] at houtput
    obtain ⟨o, ho, rfl⟩ := List.mem_map.mp houtput
    obtain ⟨name, hname, -, -, hpath⟩ := h.tracks.entries o ho
    exact ⟨name, hname, hpath⟩
  fresh := by
    intro output houtput
    rw [h.tracks.outputs] at houtput
    obtain ⟨o, ho, rfl⟩ := List.mem_map.mp houtput
    exact ⟨_, (h.tracks.entries o ho).lexicalLocation?_eq _, h.fresh o ho⟩
  holds := by
    rw [h.tracks.outputs, ← hdone, List.forall₂_map_left_iff, List.forall₂_map_right_iff,
      List.forall₂_same]
    intro o ho
    obtain ⟨text, htext, hrendered⟩ := render_ok_iff.mp (htexts o ho)
    refine ⟨text, htext, ?_⟩
    rw [← hrendered]
    exact readBytes_ok_iff.mpr ⟨_, h.tracks.stat_output ho⟩
  created := by
    intro location bytes hget
    by_cases hout : ∃ o ∈ done, o.destination.spelled fs.workingDir = location
    · obtain ⟨o, ho, rfl⟩ := hout
      refine Or.inr ⟨o.destination, ?_, (h.tracks.entries o ho).lexicalLocation?_eq _⟩
      rw [h.tracks.outputs]
      exact List.mem_map_of_mem ho
    · left
      apply (h.tracks.file_iff_of_ne _).mp hget
      intro o ho heq
      exact hout ⟨o, ho, heq⟩
  unskipped := h.tracks.unskipped

/-- What is given out stays in the report. -/
theorem Step.mem_outputs {run next : Run} {source path : Path}
    {rendered : Except FileFailure Text} (hstep : Step options run source rendered next)
    (h : path ∈ run.batch.report.outputs) : path ∈ next.batch.report.outputs := by
  cases hstep with
  | written text name destination after hname hchoose hwrite => exact List.mem_append_left _ h
  | _ => exact h

theorem mem_outputs_oneByOne (hreal : options.dryRun = false) (later : FileSystem) {run : Run}
    {path : Path} (h : path ∈ run.batch.report.outputs) (sources : List Path) :
    path ∈ (oneByOne options later run sources).batch.report.outputs := by
  induction sources generalizing run with
  | nil => exact h
  | cons source rest ih => exact ih ((step_writeRendered hreal run source _).mem_outputs h)

/-- Nothing is changed or given out yet and the name is the first one left, or the path of the
name is an output. -/
structure Approaches (options : Options) (fs : FileSystem) (name : Name) (run : Run)
    (rest : List Path) : Prop where
  files : ∀ source ∈ rest, fs.isFile source = true
  progress : (run.batch.fs = fs ∧ run.names.claimed = [] ∧
      run.names.directory = options.outDir ∧ rest.findSome? Path.fileName? = some name) ∨
    options.outDir.child name ∈ run.batch.report.outputs

theorem Approaches.step (hfs : fs.LinkFree) {name : Name} (hentry : IsEntryName name)
    (huncovers : fs.uncoversFile (options.outDir.child name) = true) {run next : Run}
    {source : Path} {rest : List Path} {text : Text}
    (h : Approaches options fs name run (source :: rest))
    (hstep : Step options run source (.ok text) next) : Approaches options fs name next rest := by
  have hfiles : ∀ s ∈ rest, fs.isFile s = true := by
    intro s hs
    exact h.files s (List.mem_cons_of_mem _ hs)
  refine ⟨hfiles, ?_⟩
  rcases h.progress with ⟨hrun, hclaimed, hdirectory, hfirst⟩ | hmem
  · have hsettled : ¬fs.Settled options.outDir := by
      intro hsettled
      rw [hsettled.uncoversFile hentry] at huncovers
      cases huncovers
    rw [← hrun] at hfs hsettled huncovers
    rw [← hdirectory] at hsettled huncovers
    have hchoose := NameAllocator.choose?_of_not_settled hfs hclaimed hsettled hentry
    rw [List.findSome?_cons] at hfirst
    cases hstep with
    | unnamed text hnone =>
        rw [hnone] at hfirst
        exact Or.inl ⟨hrun, hclaimed, hdirectory, hfirst⟩
    | skipped text found hfound hskip =>
        rw [hfound] at hfirst
        obtain rfl := Option.some.inj hfirst
        rw [hchoose] at hskip
        cases hskip
    | failed text found destination e after hfound hgiven hwrite =>
        rw [hfound] at hfirst
        obtain rfl := Option.some.inj hfirst
        obtain rfl := Option.some.inj (hchoose.symm.trans hgiven)
        obtain ⟨held, made, -, -, hdone⟩ := overwrite_of_uncoversFile hfs hentry huncovers text
        rw [hdone] at hwrite
        cases hwrite
    | written text found destination after hfound hgiven hwrite =>
        rw [hfound] at hfirst
        obtain rfl := Option.some.inj hfirst
        obtain rfl := Option.some.inj (hchoose.symm.trans hgiven)
        rw [← hdirectory]
        exact Or.inr (List.mem_append_right _ List.mem_cons_self)
  · exact Or.inr (hstep.mem_outputs hmem)

section Real

variable (hfs : fs.LinkFree) (hreal : options.dryRun = false)
include hfs hreal

/-- Without an uncovered file, the size of the chunks makes no difference. -/
theorem inChunks_eq_oneByOne (hsources : ∀ source ∈ sources, fs.isFile source = true)
    (hsafe : ¬FirstUncovers options fs sources) (size : Nat) :
    inChunks options size fs sources =
      (oneByOne options fs (begin options fs) sources).batch := by
  have hkeeps : KeepsFiles options fs (begin options fs) sources :=
    ⟨hsources, keeps_begin hfs hsafe⟩
  exact congrArg Run.batch (hkeeps.foldl_writeChunk hfs hreal (Nat.le_refl sources.length))

/-- What the run over the first sources has done, with the sources it counts as written. -/
theorem exists_spares (front rest : List Path)
    (hsources : ∀ source ∈ front ++ rest, fs.isFile source = true)
    (hsafe : ¬FirstUncovers options fs (front ++ rest)) :
    ∃ done, Spares options fs (oneByOne options fs (begin options fs) front) done rest ∧
      done.map (·.source) = writtenSources options fs front ∧
      ∀ o ∈ done, render options fs o.source = .ok o.text := by
  induction front using List.reverseRecOn generalizing rest with
  | nil => exact ⟨[], ⟨.start hfs, keeps_begin hfs hsafe, by simp⟩, rfl, by simp⟩
  | append_singleton front source ih =>
      rw [List.append_assoc, List.singleton_append] at hsources hsafe
      obtain ⟨done, hspares, hdone, htexts⟩ := ih (source :: rest) hsources hsafe
      obtain ⟨text, htext⟩ := exists_render options (hsources source (by simp))
      have hstep := step_writeRendered hreal (oneByOne options fs (begin options fs) front) source
        (render options fs source)
      rw [htext] at hstep
      obtain ⟨new, hnew, hout⟩ := hspares.step hstep
      have hrun : oneByOne options fs (begin options fs) (front ++ [source]) =
          writeRendered options (oneByOne options fs (begin options fs) front) source
            (.ok text) := by
        rw [oneByOne_append, oneByOne_cons, htext, oneByOne_nil]
      rw [← hrun] at hnew
      have hcount : (files options fs front).report.written = done.length := by
        rw [files, inChunks_eq_oneByOne hfs hreal (fun s hs => hsources s (by simp [hs]))
          (fun h => hsafe (firstUncovers_append h _))]
        exact hspares.tracks.written
      have hcount' : (files options fs (front ++ [source])).report.written =
          (done ++ new.toList).length := by
        rw [files, inChunks_eq_oneByOne hfs hreal
          (fun s hs => hsources s (by simp at hs ⊢; tauto)) (fun h => hsafe ?_)]
        · exact hnew.tracks.written
        · have happend := firstUncovers_append h rest
          rwa [List.append_assoc] at happend
      refine ⟨done ++ new.toList, hnew, ?_, ?_⟩
      · rw [writtenSources_concat, hcount, hcount', List.map_append, hdone, List.length_append]
        cases new with
        | none => simp
        | some o => simp [(hout o rfl).1]
      · intro o ho
        rcases List.mem_append.mp ho with ho | ho
        · exact htexts o ho
        · obtain ⟨hsource, hotext⟩ := hout o (Option.mem_toList.mp ho)
          rw [hsource, hotext, htext]

/-- The path of the first name is an output when it uncovers a file. -/
theorem mem_outputs_of_uncovers (hsources : ∀ source ∈ sources, fs.isFile source = true)
    {name : Name} (hname : sources.findSome? Path.fileName? = some name)
    (huncovers : fs.uncoversFile (options.outDir.child name) = true) :
    options.outDir.child name ∈ (files options fs sources).report.outputs := by
  have hstep : ∀ run source rest, Approaches options fs name run (source :: rest) →
      Approaches options fs name
        (writeRendered options run source (render options fs source)) rest := by
    intro run source rest h
    obtain ⟨text, htext⟩ := exists_render options (h.files source List.mem_cons_self)
    have hnext := step_writeRendered hreal run source (render options fs source)
    rw [htext] at hnext ⊢
    exact h.step hfs (isEntryName_of_findSome? hname) huncovers hnext
  have hchunk : ∀ run front rest, Approaches options fs name run (front ++ rest) →
      Approaches options fs name (oneByOne options run.batch.fs run front) rest := by
    intro run front rest h
    rcases h.progress with ⟨hrun, -⟩ | hmem
    · rw [hrun]
      exact oneByOne_invariant hstep h
    · constructor
      · intro s hs
        exact h.files s (List.mem_append_right _ hs)
      · exact Or.inr (mem_outputs_oneByOne hreal run.batch.fs hmem front)
  have hstart : Approaches options fs name (begin options fs) sources :=
    ⟨hsources, Or.inl ⟨rfl, rfl, rfl, hname⟩⟩
  have hfinal : Approaches options fs name
      ((chunks (chunkSize - 1) sources.length sources).foldl (writeChunk options)
        (begin options fs)) [] := chunks_invariant hchunk (Nat.le_refl sources.length) hstart
  rcases hfinal.progress with ⟨-, -, -, hnone⟩ | hmem
  · cases hnone
  · exact hmem

/-- Flattening files is faithful exactly when the first write does not uncover a file. -/
theorem files_faithful_iff (hsources : ∀ source ∈ sources, fs.isFile source = true) :
    Faithful options fs sources (files options fs sources) ↔
      ¬FirstUncovers options fs sources := by
  constructor
  · rintro hfaithful ⟨name, hname, huncovers⟩
    have hmem := mem_outputs_of_uncovers hfs hreal hsources hname huncovers
    obtain ⟨location, hlocation, hnone⟩ := hfaithful.fresh _ hmem
    have hentry := isEntryName_of_findSome? hname
    obtain ⟨held, made, hheld, -, -⟩ := overwrite_of_uncoversFile hfs hentry huncovers []
    rw [lexicalLocation?_eq, if_neg (ne_nil_of_child _ hentry)] at hlocation
    rw [← Option.some.inj hlocation, hheld] at hnone
    cases hnone
  · intro hsafe
    obtain ⟨done, hspares, hdone, htexts⟩ := exists_spares hfs hreal sources []
      (by simpa using hsources) (by simpa using hsafe)
    rw [files, inChunks_eq_oneByOne hfs hreal hsources hsafe]
    exact hspares.faithful hdone htexts

end Real

/-- Two files of one name, one of them in a directory below the other. -/
def twoFiles : FileSystem :=
  ⟨[([['s']], .directory), ([['s'], ['a']], .file [111]), ([['s'], ['t']], .directory),
    ([['s'], ['t'], ['a']], .file [110])], []⟩

/-- Flattening into a directory, with taken names numbered. -/
def numberedInto (outDir : Path) : Options :=
  ⟨outDir, ⟨['s']⟩, .renameWithSuffix, false, false⟩

/-- The lower file is flattened faithfully into a new directory, but not when the way to the upper
one steps out of a new directory. -/
theorem twoFiles_faithful_iff :
    Faithful (numberedInto ⟨['o']⟩) twoFiles [⟨['s', '/', 't', '/', 'a']⟩]
        (files (numberedInto ⟨['o']⟩) twoFiles [⟨['s', '/', 't', '/', 'a']⟩]) ∧
      ¬Faithful (numberedInto ⟨['n', '/', '.', '.', '/', 's']⟩) twoFiles
        [⟨['s', '/', 't', '/', 'a']⟩]
        (files (numberedInto ⟨['n', '/', '.', '.', '/', 's']⟩) twoFiles
          [⟨['s', '/', 't', '/', 'a']⟩]) := by
  have hfs : twoFiles.LinkFree := linkFree_of_entries (by simp [twoFiles])
  have hsources : ∀ source ∈ [Path.mk ['s', '/', 't', '/', 'a']],
      twoFiles.isFile source = true := by decide
  have hname : [Path.mk ['s', '/', 't', '/', 'a']].findSome? Path.fileName? = some ['a'] := by
    decide
  constructor
  · apply (files_faithful_iff hfs rfl hsources).mpr
    rintro ⟨name, hfound, huncovers⟩
    obtain rfl := Option.some.inj (hname.symm.trans hfound)
    revert huncovers
    decide
  · intro hfaithful
    exact (files_faithful_iff hfs rfl hsources).mp hfaithful ⟨['a'], hname, by decide⟩

end TreeFold.Flatten
