import TreeFold.CommandLine.Distribute
import TreeFold.Proofs.CommandLine.Flatten
import TreeFold.Proofs.Distribute.Counts
import TreeFold.Proofs.Flatten.Counts
import TreeFold.Proofs.SourceList

/-!
# Every input of a command is accounted for

A run of a command that gets as far as its report has counted every file that was selected, and not
taken for its own output, and every missing entry of a list, each once. A distribution counts blobs
and segments alike. Such a run fails exactly when it is strict and the report has a failure, or when
the report is to be shown as JSON and has a destination that is not UTF-8.
-/

namespace TreeFold

namespace CommandLine

open TreeFold.Path Text

/-- The outcome of a run that ends before its report: the command fails, though not for files that
failed, or there is nothing for it to look at. -/
inductive EndsUnreported (flags : Flags) : Outcome → Prop
  | failed (fs : FileSystem) (warnings : List Text) (error : CommandError)
      (h : ∀ label count, error ≠ .failedFiles label count)
      (hshown : error ≠ .malformedDestination) :
      EndsUnreported flags (.failed fs warnings error)
  | noneNamed (fs : FileSystem) (warnings : List Text) (name : Name) (root : Path) :
      EndsUnreported flags (.saying flags fs warnings [noneNamedLine name root])
  | noFolder (fs : FileSystem) (warnings : List Text) (folder : Path) :
      EndsUnreported flags
        (.saying flags fs warnings ["Generated folder not found: ".toList ++ folder.text])

/-- The report is to be shown as JSON and has a destination that is not UTF-8. -/
def Unspeakable (encoding : Path.Encoding) (json : Bool) (report : Report) : Prop :=
  json = true ∧ ∃ output ∈ report.outputs, ¬IsUtf8 (encoding.bytes output)

theorem mapM_eq_none_iff {α β : Type} {f : α → Option β} {items : List α} :
    items.mapM f = none ↔ ∃ item ∈ items, f item = none := by
  induction items with
  | nil => simp
  | cons item items ih =>
      rw [List.mapM_cons]
      simp only [List.mem_cons, or_and_right, exists_or, exists_eq_left, ← ih]
      cases f item <;> cases items.mapM f <;> simp

theorem reportLines?_eq_none_iff (flags : Flags) (encoding : Path.Encoding) (finish : BatchEnd)
    (report : Report) :
    reportLines? flags encoding finish report = none ↔
      Unspeakable encoding finish.json report := by
  have hjson : reportJson? encoding report = none ↔
      ∃ output ∈ report.outputs, ¬IsUtf8 (encoding.bytes output) := by
    have hmalformed : reportJson? encoding report = none ↔
        report.outputs.mapM encoding.text? = none := by
      rw [reportJson?]
      cases report.outputs.mapM encoding.text? <;> simp
    rw [hmalformed, mapM_eq_none_iff]
    simp only [Path.Encoding.text?, ← isSome_decodeUtf8?_iff, Bool.not_eq_true,
      Option.isSome_eq_false_iff, Option.isNone_iff_eq_none]
  rw [reportLines?, Unspeakable, ← hjson]
  cases finish.json <;> cases flags.quiet <;> simp

/-- A batch ends in failure when a file has failed and it is strict, or when its report cannot be
shown. -/
theorem isSome_error?_endBatch (flags : Flags) (encoding : Path.Encoding) (finish : BatchEnd)
    (warnings : List Text) (batch : Batch) :
    (endBatch flags encoding finish warnings batch).error?.isSome = true ↔
      (finish.strict = true ∧ batch.report.failures ≠ []) ∨
        Unspeakable encoding finish.json batch.report := by
  rw [← reportLines?_eq_none_iff flags, endBatch]
  cases hlines : reportLines? flags encoding finish batch.report with
  | none => simp
  | some lines =>
      have hclean : (strictError? finish batch.report).isSome = true ↔
          finish.strict = true ∧ batch.report.failures ≠ [] := by
        rw [strictError?, Report.isClean]
        cases finish.strict <;> cases batch.report.failures <;> simp
      simpa using hclean

namespace FlattenCommand

variable (command : FlattenCommand) (flags : Flags) (environment : Environment)
  (settings : Settings) (encoding : Path.Encoding)

/-- The selected sources that are taken for the command's own output. -/
def ownOutput (fs : FileSystem) (selected : Selected) : List Path :=
  selected.sources.filter
    (Selection.isWithin fs.workingDir (command.outDir environment settings))

/-- What the report of a run says about the files that were selected. -/
structure Accounts (fs : FileSystem) (selected : Selected) (batch : Batch) : Prop where
  ends : command.run flags environment fs encoding =
    endBatch flags encoding ⟨"flatten", command.json, command.strict⟩
      (command.expansionWarnings environment settings) batch
  balanced : batch.report.Balanced
  processed : batch.report.processed =
    (Selection.outside fs.workingDir (command.outDir environment settings)
      selected.sources).length + selected.missing.length
  listed : ∀ list, command.fromList? = some list →
    ∃ text, fs.readText (list.expand environment).1 = .ok text ∧
      batch.report.processed + (command.ownOutput environment settings fs selected).length =
        (text.splitOn '\n').countP (!isBlankText ·)
  fails_iff : (command.run flags environment fs encoding).error?.isSome = true ↔
    (command.strict = true ∧ batch.report.failures ≠ []) ∨
      Unspeakable encoding command.json batch.report

/-- A run is prepared, or it ends before its report. -/
theorem prepares_or_endsUnreported (fs : FileSystem) :
    (∃ settings selected made,
        command.Prepares flags environment settings fs selected made) ∨
      EndsUnreported flags (command.run flags environment fs encoding) := by
  cases hload : Settings.load fs environment here with
  | error e =>
      rw [run, withSettings, hload]
      exact Or.inr (.failed _ _ _ (by simp) (by simp))
  | ok settings =>
      cases hwalker : command.walker settings with
      | error e =>
          rw [run, withSettings, hload]
          simp only [runWith, hwalker]
          exact Or.inr (.failed _ _ _ (by simp) (by simp))
      | ok walker =>
          cases hselect : (command.selection environment).1.select walker fs
              (command.root.expand environment).1 with
          | error e =>
              rw [run, withSettings, hload]
              simp only [runWith, hwalker, hselect]
              cases e with
              | notDirectory root => exact Or.inr (.failed _ _ _ (by simp) (by simp))
              | unreadableList list e => exact Or.inr (.failed _ _ _ (by simp) (by simp))
              | noneNamed name root => exact Or.inr (.noneNamed _ _ name root)
          | ok selected =>
              rcases hmakes : makeUnlessDry flags fs (command.outDir environment settings) with
                ⟨_ | e, made⟩
              · exact Or.inl ⟨settings, selected, made, hload, ⟨walker, hwalker, hselect⟩, hmakes⟩
              · rw [run_of_select hload hwalker hselect, flattened, hmakes]
                exact Or.inr (.failed _ _ _ (by simp) (by simp))

variable {command flags environment settings encoding} {fs made : FileSystem} {selected : Selected}

/-- In a list, every line that is not blank is selected or missing. -/
theorem Prepares.length_listed
    (h : command.Prepares flags environment settings fs selected made) {list : Path}
    (hlist : command.fromList? = some list) :
    ∃ text, fs.readText (list.expand environment).1 = .ok text ∧
      selected.sources.length + selected.missing.length =
        (text.splitOn '\n').countP (!isBlankText ·) := by
  obtain ⟨walker, -, hselect⟩ := h.selects
  have hselection : (command.selection environment).1 = .listed (list.expand environment).1 := by
    rw [selection, hlist]
  rw [hselection, Selection.select, SourceList.read] at hselect
  cases htext : fs.readText (list.expand environment).1 with
  | error e => simp [htext, Except.map] at hselect
  | ok text =>
      simp only [htext, Except.map, Except.ok.injEq] at hselect
      refine ⟨text, rfl, ?_⟩
      rw [← hselect, SourceList.length_split, SourceList.length_entries]

/-- A prepared run accounts for all that it has selected. -/
theorem Prepares.accounts (h : command.Prepares flags environment settings fs selected made) :
    command.Accounts flags environment settings encoding fs selected
      (flattenSelected (command.options flags environment settings) made selected) := by
  have hrun := h.run_eq encoding
  obtain ⟨hbalanced, hlength⟩ := Flatten.counts_inChunks
    (command.options flags environment settings) Flatten.chunkSize made
    (Selection.outside made.workingDir (command.outDir environment settings) selected.sources)
  obtain ⟨hall, hprocessed⟩ := Flatten.counts_withMissing hbalanced selected.missing
  rw [hlength, h.workingDir] at hprocessed
  refine ⟨hrun, hall, ?_, ?_, ?_⟩
  · rw [flattenSelected, h.workingDir]
    exact hprocessed
  · intro list hlist
    obtain ⟨text, htext, hcount⟩ := h.length_listed hlist
    refine ⟨text, htext, ?_⟩
    have hsplit := List.length_eq_length_filter_add (l := selected.sources)
      (Selection.isWithin fs.workingDir (command.outDir environment settings))
    rw [← hcount, flattenSelected, h.workingDir, ownOutput, hsplit]
    refine (congrArg (· + _) hprocessed).trans ?_
    rw [Selection.outside]
    omega
  · rw [hrun, isSome_error?_endBatch]

end FlattenCommand

namespace DistributeCommand

variable (command : DistributeCommand) (flags : Flags) (environment : Environment)
  (settings : Settings) (encoding : Path.Encoding)

/-- The folder or file that the blobs are taken from. -/
def folder : Path :=
  ((command.generated?.getD settings.distribute.generatedDir).expand environment).1

/-- The options that the blobs are distributed with. -/
def options : Distribute.Options where
  target := ((command.target?.getD settings.distribute.targetDir).expand environment).1
  dryRun := flags.dryRun

/-- The alias rules in force. -/
def rules : List AliasRule :=
  if command.aliases = [] then settings.distribute.aliases else command.aliases

/-- What is said about paths that cannot be expanded. -/
def expansionWarnings : List Text :=
  ((command.generated?.getD settings.distribute.generatedDir).expand environment).2 ++
    ((command.target?.getD settings.distribute.targetDir).expand environment).2

/-- A run loads the settings and finds its blobs. -/
structure Prepares (fs : FileSystem) (blobs : List Path) : Prop where
  loads : Settings.load fs environment here = .ok settings
  finds : fs.pathExists (command.folder environment settings) = true
  takes : command.blobs fs settings (command.folder environment settings) = .ok blobs

/-- What the report of a run says about its blobs. -/
structure Accounts (fs : FileSystem) (blobs : List Path) (batch : Batch) : Prop where
  ends : command.run flags environment fs encoding =
    endBatch flags encoding ⟨"distribute", command.json, command.strict⟩
      (command.expansionWarnings environment settings) batch
  counts : Distribute.Accounts (command.rules settings) fs blobs batch.report
  fails_iff : (command.run flags environment fs encoding).error?.isSome = true ↔
    (command.strict = true ∧ batch.report.failures ≠ []) ∨
      Unspeakable encoding command.json batch.report

/-- A run is prepared, or it ends before its report. -/
theorem prepares_or_endsUnreported (fs : FileSystem) :
    (∃ settings blobs, command.Prepares environment settings fs blobs) ∨
      EndsUnreported flags (command.run flags environment fs encoding) := by
  cases hload : Settings.load fs environment here with
  | error e =>
      rw [run, withSettings, hload]
      exact Or.inr (.failed _ _ _ (by simp) (by simp))
  | ok settings =>
      cases hfinds : fs.pathExists (command.folder environment settings) with
      | false =>
          rw [folder] at hfinds
          rw [run, withSettings, hload]
          simp only [runWith, hfinds, Bool.not_false, if_true]
          exact Or.inr (.noFolder _ _ _)
      | true =>
          cases htakes : command.blobs fs settings (command.folder environment settings) with
          | error e =>
              rw [folder] at hfinds htakes
              rw [run, withSettings, hload]
              simp only [runWith, hfinds, htakes, Bool.not_true, Bool.false_eq_true, if_false]
              exact Or.inr (.failed _ _ _ (by simp) (by simp))
          | ok blobs => exact Or.inl ⟨settings, blobs, hload, hfinds, htakes⟩

variable {command environment settings encoding} {fs : FileSystem} {blobs : List Path}

/-- A prepared run distributes its blobs and ends with the report. -/
theorem Prepares.run_eq (h : command.Prepares environment settings fs blobs) :
    command.run flags environment fs encoding =
      endBatch flags encoding ⟨"distribute", command.json, command.strict⟩
        (command.expansionWarnings environment settings)
        (Distribute.files (command.options flags environment settings) (command.rules settings) fs
          blobs) := by
  have hfinds := h.finds
  have htakes := h.takes
  rw [folder] at hfinds htakes
  rw [run, withSettings, h.loads]
  simp only [runWith, hfinds, htakes, Bool.not_true, Bool.false_eq_true, if_false]
  rfl

/-- A prepared run accounts for its blobs and their segments. -/
theorem Prepares.accounts (h : command.Prepares environment settings fs blobs) :
    command.Accounts flags environment settings encoding fs blobs
      (Distribute.files (command.options flags environment settings) (command.rules settings) fs
        blobs) := by
  refine ⟨h.run_eq flags, Distribute.accounts_files _ _ _ _, ?_⟩
  rw [h.run_eq flags, isSome_error?_endBatch]

end DistributeCommand

/-- Every input is accounted for once: by each prepared run of the flatten command, by each
distribution, dry or real, and by each prepared run of the distribute command, in whatever bytes
paths are written. A run that is not prepared ends before its report. -/
theorem inputs_accounted :
    (∀ (command : FlattenCommand) (flags : Flags) (environment : Environment) (fs : FileSystem)
        (encoding : Path.Encoding),
      ((∃ settings selected made,
          command.Prepares flags environment settings fs selected made) ∨
        EndsUnreported flags (command.run flags environment fs encoding)) ∧
      ∀ settings selected made, command.Prepares flags environment settings fs selected made →
        command.Accounts flags environment settings encoding fs selected
          (flattenSelected (command.options flags environment settings) made selected)) ∧
    (∀ (options : Distribute.Options) (rules : List AliasRule) (fs : FileSystem)
      (blobs : List Path),
      Distribute.Accounts rules fs blobs (Distribute.files options rules fs blobs).report) ∧
    ∀ (command : DistributeCommand) (flags : Flags) (environment : Environment)
      (fs : FileSystem) (encoding : Path.Encoding),
      ((∃ settings blobs, command.Prepares environment settings fs blobs) ∨
        EndsUnreported flags (command.run flags environment fs encoding)) ∧
      ∀ settings blobs, command.Prepares environment settings fs blobs →
        command.Accounts flags environment settings encoding fs blobs
          (Distribute.files (command.options flags environment settings) (command.rules settings)
            fs blobs) := by
  refine ⟨?_, Distribute.accounts_files, ?_⟩
  · intro command flags environment fs encoding
    refine ⟨command.prepares_or_endsUnreported flags environment encoding fs, ?_⟩
    intro settings selected made h
    exact h.accounts
  · intro command flags environment fs encoding
    refine ⟨command.prepares_or_endsUnreported flags environment encoding fs, ?_⟩
    intro settings blobs h
    exact h.accounts flags

/-- A list that names a file, a file in the output directory and a missing file, blank lines
between. -/
def sparseList : FileSystem :=
  ⟨[([['l']], .file [120, 10, 32, 10, 111, 47, 121, 10, 10, 122]), ([['x']], .file [120]),
    ([['o']], .directory), ([['o'], ['y']], .file [121])], []⟩

/-- Flatten what the list names, and be strict about failures. -/
def strictly : FlattenCommand :=
  ⟨ofString ".", some (ofString "o"), none, [], [], some (ofString "l"), none, none, false, false,
    true⟩

/-- Of the three entries one is written, one is missing and one is left out, and the command
fails. -/
theorem sparseList_accounted :
    strictly.Prepares ⟨false, false, false, false⟩ ⟨[]⟩ .defaults sparseList
        ⟨[ofString "./x", ofString "./o/y"], [ofString "./z"]⟩ sparseList ∧
      (flattenSelected (strictly.options ⟨false, false, false, false⟩ ⟨[]⟩ .defaults) sparseList
        ⟨[ofString "./x", ofString "./o/y"], [ofString "./z"]⟩).report.processed = 2 ∧
      (strictly.run ⟨false, false, false, false⟩ ⟨[]⟩ sparseList .utf8).error?.isSome = true := by
  have hprepares : strictly.Prepares ⟨false, false, false, false⟩ ⟨[]⟩ .defaults sparseList
      ⟨[ofString "./x", ofString "./o/y"], [ofString "./z"]⟩ sparseList := by
    have hparses : (strictly.walker .defaults).toOption.isSome = true := by decide +kernel
    obtain ⟨walker, hwalker⟩ := FlattenCommand.exists_walker hparses
    exact ⟨rfl, ⟨walker, hwalker, rfl⟩, rfl⟩
  have haccounts := (inputs_accounted.1 _ _ _ _ .utf8).2 _ _ _ hprepares
  have hleft : (Selection.outside sparseList.workingDir (strictly.outDir ⟨[]⟩ .defaults)
      [ofString "./x", ofString "./o/y"]).length = 1 := by decide +kernel
  have hprocessed := haccounts.processed
  rw [hleft] at hprocessed
  refine ⟨hprepares, hprocessed, haccounts.fails_iff.mpr (Or.inl ⟨rfl, ?_⟩)⟩
  have hfailures : (flattenSelected
      (strictly.options ⟨false, false, false, false⟩ ⟨[]⟩ .defaults) sparseList
      ⟨[ofString "./x", ofString "./o/y"], [ofString "./z"]⟩).report.failures =
        [.missing (ofString "./z")] := by decide +kernel
  rw [hfailures]
  simp

/-- Bytes of a character, or one that is no part of UTF-8 for a replaced unit. -/
def malformedBytes (c : Char) : List UInt8 :=
  if c = replacement then [255] else encodeChar c

/-- All replaced units of paths stand for malformed bytes. -/
def withMalformed : Path.Encoding :=
  ⟨fun path => path.text.flatMap malformedBytes⟩

theorem startsChar_of_mem_malformedBytes (text : Text) :
    ∀ byte ∈ (text.flatMap malformedBytes).head?, StartsChar byte := by
  cases text with
  | nil => rintro byte ⟨⟩
  | cons c text =>
      obtain ⟨first, rest, hchar, hfirst⟩ : ∃ first rest, malformedBytes c = first :: rest ∧
          StartsChar first := by
        rw [malformedBytes]
        split
        · exact ⟨255, [], rfl, by decide⟩
        · exact exists_encodeChar_eq c
      rw [List.flatMap_cons, hchar]
      rintro byte ⟨⟩
      exact hfirst

/-- Paths are what their bytes read as. -/
theorem decodeLossy_withMalformed (path : Path) :
    decodeLossy (withMalformed.bytes path) = path.text := by
  obtain ⟨text⟩ := path
  simp only [withMalformed]
  induction text with
  | nil => rfl
  | cons c text ih =>
      have hchar : decodeLossy (malformedBytes c) = [c] := by
        rw [malformedBytes]
        split
        · rename_i hc
          rw [hc]
          decide
        · rw [← decodeLossy_encodeUtf8 [c], encodeUtf8, List.flatMap_singleton]
      rw [List.flatMap_cons,
        decodeLossy_append_of_start _ (startsChar_of_mem_malformedBytes text), ih, hchar,
        List.singleton_append]

/-- A list that names a file. -/
def oneListed : FileSystem :=
  ⟨[([['l']], .file [120]), ([['x']], .file [120]), ([['f', replacement]], .directory)], []⟩

/-- Flatten what the list names into a directory whose name is not UTF-8, show the report as JSON
and be strict about failures. -/
def intoMalformed : FlattenCommand :=
  ⟨ofString ".", some ⟨['f', replacement]⟩, none, [], [], some (ofString "l"), none, none, false,
    true, true⟩

/-- A strict run fails although no file has failed, when its report cannot be shown, and also when
it ends before its report. -/
theorem intoMalformed_fails :
    intoMalformed.Prepares ⟨false, false, false, false⟩ ⟨[]⟩ .defaults oneListed
        ⟨[ofString "./x"], []⟩ oneListed ∧
      (flattenSelected (intoMalformed.options ⟨false, false, false, false⟩ ⟨[]⟩ .defaults)
        oneListed ⟨[ofString "./x"], []⟩).report.failures = [] ∧
      (∀ path, decodeLossy (withMalformed.bytes path) = path.text) ∧
      (intoMalformed.run ⟨false, false, false, false⟩ ⟨[]⟩ oneListed withMalformed).error? =
        some .malformedDestination ∧
      (strictly.run ⟨false, false, false, false⟩ ⟨[]⟩ ⟨[], []⟩ .utf8).error? =
        some (.sourceList (ofString "l") .notFound) := by
  have hparses : (intoMalformed.walker .defaults).toOption.isSome = true := by decide +kernel
  obtain ⟨walker, hwalker⟩ := FlattenCommand.exists_walker hparses
  exact ⟨⟨rfl, ⟨walker, hwalker, rfl⟩, rfl⟩, by decide +kernel, decodeLossy_withMalformed,
    by decide +kernel, by decide +kernel⟩

end CommandLine

end TreeFold
