import TreeFold.CommandLine.Flatten
import TreeFold.Proofs.FileSystem.Directories
import TreeFold.Proofs.Path.Within

/-!
# Runs of the flatten command

A run that has its settings, its sources and its output directory flattens the sources that are not
taken for its own output, and ends with the report. A source is taken for output when its
components begin with those of the output directory. As long as a step up stands in neither behind
their common start, these are the sources that lie in the output directory.
-/

namespace TreeFold.CommandLine

open TreeFold.Path

namespace FlattenCommand

variable (command : FlattenCommand) (flags : Flags) (environment : Environment)
  (settings : Settings) (encoding : Path.Encoding)

/-- The directory that sources are selected below. -/
def rootPath : Path :=
  (command.root.expand environment).1

/-- The directory that flat files are written to. -/
def outDir : Path :=
  ((command.out?.getD settings.flatten.outputDir).expand environment).1

/-- The options that the sources are flattened with. -/
def options : Flatten.Options where
  outDir := command.outDir environment settings
  base := ((command.base?.map (·.expand environment)).getD (command.rootPath environment, [])).1
  collision := command.collision?.getD settings.flatten.collision
  stripComments := settings.flatten.stripComments && !command.keepComments
  dryRun := flags.dryRun

/-- What is said about paths that cannot be expanded. -/
def expansionWarnings : List Text :=
  (command.root.expand environment).2 ++
    ((command.out?.getD settings.flatten.outputDir).expand environment).2 ++
    ((command.base?.map (·.expand environment)).getD (command.rootPath environment, [])).2 ++
    (command.selection environment).2

/-- A run loads the settings, selects sources and makes its output directory. -/
structure Prepares (fs : FileSystem) (selected : Selected) (made : FileSystem) : Prop where
  loads : Settings.load fs environment here = .ok settings
  selects : ∃ walker, command.walker settings = .ok walker ∧
    (command.selection environment).1.select walker fs (command.rootPath environment) =
      .ok selected
  makes : makeUnlessDry flags fs (command.outDir environment settings) = ⟨none, made⟩

/-- What a run does with the sources that it has selected. -/
def flattened (fs : FileSystem) (warnings : List Text) (selected : Selected) : Outcome :=
  match makeUnlessDry flags fs (command.outDir environment settings) with
  | ⟨some e, made⟩ =>
    .failed made warnings (.outputDirectory (command.outDir environment settings) e)
  | ⟨none, made⟩ =>
    endBatch flags encoding ⟨"flatten", command.json, command.strict⟩ warnings
      (flattenSelected (command.options flags environment settings) made selected)

variable {command flags environment settings encoding} {fs made : FileSystem} {selected : Selected}

/-- A run that has its settings and its walker flattens what it selects. -/
theorem run_of_select {walker : Walker}
    (hload : Settings.load fs environment here = .ok settings)
    (hwalker : command.walker settings = .ok walker)
    (hselect : (command.selection environment).1.select walker fs (command.rootPath environment) =
      .ok selected) :
    command.run flags environment fs encoding =
      command.flattened flags environment settings encoding fs
        (command.expansionWarnings environment settings) selected := by
  rw [rootPath] at hselect
  rw [run, withSettings, hload]
  simp only [runWith, hwalker, hselect]
  rfl

/-- A prepared run flattens what it has selected and ends with the report. -/
theorem Prepares.run_eq (h : command.Prepares flags environment settings fs selected made)
    (encoding : Path.Encoding) :
    command.run flags environment fs encoding =
      endBatch flags encoding ⟨"flatten", command.json, command.strict⟩
        (command.expansionWarnings environment settings)
        (flattenSelected (command.options flags environment settings) made selected) := by
  obtain ⟨walker, hwalker, hselect⟩ := h.selects
  rw [run_of_select h.loads hwalker hselect, flattened, h.makes]

/-- Making the output directory does not change the working directory. -/
theorem Prepares.workingDir (h : command.Prepares flags environment settings fs selected made) :
    made.workingDir = fs.workingDir := by
  have hmakes := h.makes
  rw [makeUnlessDry] at hmakes
  split at hmakes
  · cases hmakes
    rfl
  · rw [show made = (fs.makeDirectories _).fs from (congrArg FileSystem.Change.fs hmakes).symm]
    exact (FileSystem.addsDirectories_makeDirectories fs _).workingDir

/-- A prepared run hands on, in their order, the selected sources that do not begin with the
components of the output directory. These are the sources that do not lie in it exactly when no
selected source is misjudged, and none is when neither it nor the output directory steps up. -/
theorem run_leavesOutput_iff
    (h : command.Prepares flags environment settings fs selected made)
    (encoding : Path.Encoding) :
    command.run flags environment fs encoding =
        endBatch flags encoding ⟨"flatten", command.json, command.strict⟩
          (command.expansionWarnings environment settings)
          (Flatten.withMissing
            (Flatten.files (command.options flags environment settings) made
              (Selection.outside fs.workingDir
                (command.outDir environment settings) selected.sources))
            selected.missing) ∧
      ((∀ source ∈ selected.sources,
          (source ∈ Selection.outside fs.workingDir
              (command.outDir environment settings) selected.sources ↔
            ¬LiesUnder fs.workingDir (command.outDir environment settings) source)) ↔
        ∀ source ∈ selected.sources,
          ¬Misjudged fs.workingDir (command.outDir environment settings) source) ∧
      ∀ source, .parent ∉ (command.outDir environment settings).components →
        .parent ∉ source.components →
        ¬Misjudged fs.workingDir (command.outDir environment settings) source := by
  refine ⟨?_, ?_, ?_⟩
  · rw [h.run_eq, flattenSelected, h.workingDir]
    rfl
  · apply forall₂_congr
    intro source hsource
    rw [← isWithin_iff_liesUnder, Selection.outside, List.mem_filter]
    simp only [hsource, true_and, Bool.not_eq_true']
    rw [← Bool.not_eq_true, not_iff_not]
  · intro source hdir hpath
    exact not_misjudged_of_plain hdir hpath

/-- A command whose globs parse has a walker. -/
theorem exists_walker (h : (command.walker settings).toOption.isSome = true) :
    ∃ walker, command.walker settings = .ok walker := by
  cases hwalker : command.walker settings with
  | error e =>
      rw [hwalker] at h
      cases h
  | ok walker => exact ⟨walker, rfl⟩

/-- A directory with one file and, beside it, a list that names the file. -/
def listedFile : FileSystem :=
  ⟨[([['w']], .directory), ([['w'], ['l']], .file [102, 47, 120]),
    ([['w'], ['f']], .directory), ([['w'], ['f'], ['x']], .file [120])], [['w']]⟩

/-- Flatten what the list names into the directory of the file, spelled with a step up. -/
def intoRespelled : FlattenCommand :=
  ⟨ofString ".", some (ofString "f/../f"), none, [], [], some (ofString "l"), none, none, false,
    false, false⟩

/-- The listed file lies in the output directory and is flattened all the same. -/
theorem listedFile_run_leavesOutput :
    intoRespelled.run ⟨false, false, false, false⟩ ⟨[]⟩ listedFile .utf8 =
        endBatch ⟨false, false, false, false⟩ .utf8 ⟨"flatten", false, false⟩ []
          (Flatten.withMissing
            (Flatten.files (intoRespelled.options ⟨false, false, false, false⟩ ⟨[]⟩ .defaults)
              listedFile [ofString "./f/x"]) []) ∧
      LiesUnder [['w']] (ofString "f/../f") (ofString "./f/x") ∧
      ¬∀ source ∈ [ofString "./f/x"],
        (source ∈ Selection.outside [['w']] (ofString "f/../f") [ofString "./f/x"] ↔
          ¬LiesUnder [['w']] (ofString "f/../f") source) := by
  have hprepares : intoRespelled.Prepares ⟨false, false, false, false⟩ ⟨[]⟩ .defaults listedFile
      ⟨[ofString "./f/x"], []⟩ listedFile := by
    have hparses : (intoRespelled.walker .defaults).toOption.isSome = true := by decide +kernel
    obtain ⟨walker, hwalker⟩ := exists_walker hparses
    exact ⟨rfl, ⟨walker, hwalker, rfl⟩, rfl⟩
  have hlies : LiesUnder [['w']] (ofString "f/../f") (ofString "./f/x") :=
    ⟨[['x']], [['w'], ['f']], rfl, rfl⟩
  obtain ⟨hrun, hleaves, -⟩ := run_leavesOutput_iff hprepares .utf8
  refine ⟨hrun, hlies, fun h => hleaves.mp h _ List.mem_cons_self ?_⟩
  refine ⟨[.root, .normal ['w'], .normal ['f']], [.parent, .normal ['f']], [.normal ['x']],
    ⟨rfl, rfl, ?_⟩, Or.inr ⟨by simp, by simp, hlies⟩⟩
  rintro c ⟨⟩
  simp

end FlattenCommand

end TreeFold.CommandLine
