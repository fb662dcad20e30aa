import TreeFold.Proofs.Distribute.Run
import TreeFold.Proofs.Flatten.Complete
import TreeFold.Proofs.Flatten.Header
import TreeFold.Proofs.Path.Relative

/-!
# From sources to flat files and back

Flattening turns each source into a blob of one segment, named by the path of the source below the
base. Distributing the blobs puts the bodies at these paths below the target. The two halves meet
in the description of a flat file: the names of its source, and a body without annotations.

## Implementation notes

A source of a later chunk is read after the first chunk was written. When the first write uncovers
and replaces a file, and that file is such a source, its text is lost, and the text of the first
source is restored in its place.
-/

namespace TreeFold.RoundTrip

open TreeFold.Path FileSystem Text Flatten

/-- A text that can stand below an annotation whole. -/
structure IsBody (rules : List AliasRule) (text : Text) : Prop where
  ne_nil : text ≠ []
  plain : ∀ line ∈ linesInclusive text, PathLabel.ofLine? rules line = none

/-- A file below the base, at a path that an annotation can name and that no alias changes, and
with a body that can stand below the annotation. -/
structure Restorable (options : Flatten.Options) (rules : List AliasRule) (fs : FileSystem)
    (source : Path) : Prop where
  isFile : fs.isFile source = true
  below : ∃ names, LiesAt fs.workingDir options.base source names
  shape : ∀ path, source.stepsFrom? fs.workingDir options.base = some path →
    PathLabel.IsPathText path.text
  unaliased : ∀ path, source.stepsFrom? fs.workingDir options.base = some path →
    AliasRule.normalize rules path.text = path.text
  body : ∀ text, fs.readText source = .ok text → IsBody rules (Comment.strip text)

/-- The setting of a round trip: the target holds no file yet, and neither it nor the directory of
the flat files lies in the other. -/
structure Setting (options : Flatten.Options) (rules : List AliasRule) (target : Path)
    (fs : FileSystem) (sources : List Path) : Prop where
  linkFree : fs.LinkFree
  isTree : fs.IsTree
  numbers : options.collision = .renameWithSuffix
  strips : options.stripComments = true
  real : options.dryRun = false
  restorable : ∀ source ∈ sources, Restorable options rules fs source
  vacant : ∀ names bytes,
    fs.get? (target.spelled fs.workingDir ++ names) ≠ some (.file bytes)
  outside : ¬target.spelled fs.workingDir <+: options.outDir.spelled fs.workingDir
  apart : ¬options.outDir.spelled fs.workingDir <+: target.spelled fs.workingDir

/-- Distribute the outputs of flattening the sources. -/
def thereAndBack (options : Flatten.Options) (rules : List AliasRule) (target : Path)
    (fs : FileSystem) (sources : List Path) : Batch :=
  Distribute.files ⟨target, false⟩ rules (Flatten.files options fs sources).fs
    (Flatten.files options fs sources).report.outputs

/-- The body is that of a source at these names below the base. -/
def IsBodyAt (options : Flatten.Options) (fs : FileSystem) (sources : List Path)
    (names : List Name) (body : Text) : Prop :=
  ∃ source ∈ sources, ∃ text, LiesAt fs.workingDir options.base source names ∧
    fs.readText source = .ok text ∧ body = Comment.strip text

/-- The files below the target are the bodies of the sources at their names below the base. -/
def Restored (options : Flatten.Options) (target : Path) (fs : FileSystem) (sources : List Path)
    (restored : FileSystem) : Prop :=
  ∀ names bytes, restored.get? (target.spelled fs.workingDir ++ names) = some (.file bytes) ↔
    ∃ body, IsBodyAt options fs sources names body ∧ bytes = encodeUtf8 body

/-- What a source comes back as, given what it reads as when its turn comes. -/
def turnWrites (options : Flatten.Options) (rules : List AliasRule) (target : Path)
    (fs : FileSystem) : Path × Option Text → List (Path × Text)
  | (source, some read) => Distribute.segmentWrites target
      (Segment.extract rules (header fs.workingDir source options.base ++ Comment.strip read))
  | (_, none) => []

/-- What the sources come back as, in their order. -/
def returnedWrites (options : Flatten.Options) (rules : List AliasRule) (target : Path)
    (fs : FileSystem) (sources : List Path) : List (Path × Text) :=
  (turns options fs sources).flatMap (turnWrites options rules target fs)

/-- What comes back last at names below the base is the body of a source there. -/
def Undisturbed (options : Flatten.Options) (rules : List AliasRule) (target : Path)
    (fs : FileSystem) (sources : List Path) : Prop :=
  ∀ names body, lastWrite fs.workingDir (returnedWrites options rules target fs sources)
    (target.spelled fs.workingDir ++ names) = some body ↔ IsBodyAt options fs sources names body

/-- A source of a later chunk that is stripped to another body when its turn comes than at the
start. -/
def Spoils (options : Flatten.Options) (fs : FileSystem) (sources : List Path) (source : Path)
    (text : Text) : Prop :=
  source ∈ sources.drop chunkSize ∧ laterText? options fs sources source = some text ∧
    ∀ original, fs.readText source = .ok original →
      Comment.strip text ≠ Comment.strip original

variable {options : Flatten.Options} {rules : List AliasRule} {target : Path} {fs : FileSystem}
  {sources : List Path} {source : Path} {names : List Name} {body : Text}

/-- The path of names as an annotation shows it. -/
def shown (names : List Name) : Path :=
  ofComponents (names.map .normal)

/-- The names on the way to a file are names of entries. -/
theorem Restorable.isEntryName (h : Restorable options rules fs source) (hfs : fs.LinkFree)
    (htree : fs.IsTree) (hlies : LiesAt fs.workingDir options.base source names) :
    ∀ name ∈ names, IsEntryName name := by
  obtain ⟨location, bytes, hstat⟩ := (isFile_iff fs source).mp h.isFile
  obtain ⟨-, hget, -⟩ := stat_ok hfs hstat
  have hlocation := lexicalLocation?_of_stat hfs hstat
  obtain ⟨start, -, hpath⟩ := hlies
  obtain rfl := Option.some.inj (hlocation.symm.trans hpath)
  exact htree.isEntryName_behind hget

/-- A flat file is the blob of one segment. -/
theorem extract_header (h : Restorable options rules fs source)
    (hlies : LiesAt fs.workingDir options.base source names) (hbody : IsBody rules body) :
    Segment.extract rules (header fs.workingDir source options.base ++ body) =
      [⟨(shown names).text, (shown names).text, body⟩] := by
  have hsteps := hlies.stepsFrom?_eq
  have hblob : header fs.workingDir source options.base ++ body =
      Segment.render [⟨(shown names).text, (shown names).text, body⟩] := by
    calc
      header fs.workingDir source options.base ++ body
          = "// ".toList ++ (shown names).text ++ (['\n'] ++ ['\n']) ++ body := by
            rw [header_eq hsteps]
            rfl
      _ = Segment.written ⟨(shown names).text, (shown names).text, body⟩ :=
          congrArg (· ++ body) (List.append_assoc _ _ _).symm
      _ = Segment.render [⟨(shown names).text, (shown names).text, body⟩] :=
          (List.append_nil _).symm
  rw [hblob]
  apply Segment.extract_render_of_wellFormed
  constructor
  · intro segment hsegment
    rw [List.mem_singleton.mp hsegment]
    exact ⟨h.shape _ hsteps, (h.unaliased _ hsteps).symm, hbody.ne_nil, hbody.plain⟩
  · simp

/-- A flat file is written back as its body, behind the target at the names of its source. -/
theorem segmentWrites_extract (hnames : ∀ name ∈ names, IsEntryName name) (target : Path)
    (body : Text) :
    Distribute.segmentWrites target [⟨(shown names).text, (shown names).text, body⟩] =
      [(target.join (shown names), body)] := by
  have hdestination : Distribute.destination? target (shown names).text =
      some (target.join (shown names)) := by
    rw [Distribute.destination?]
    exact if_pos (isContained_ofNames hnames)
  simp [Distribute.segmentWrites, hdestination]

/-- A source comes back as one body, at its names. -/
structure Returns (options : Flatten.Options) (rules : List AliasRule) (fs : FileSystem)
    (turn : Path × Option Text) (names : List Name) (body : Text) : Prop where
  lies : LiesAt fs.workingDir options.base turn.1 names
  isEntryName : ∀ name ∈ names, IsEntryName name
  writes : ∀ target, turnWrites options rules target fs turn = [(target.join (shown names), body)]

theorem Returns.body_unique {turn : Path × Option Text} {others : List Name} {other : Text}
    (h : Returns options rules fs turn names body)
    (h' : Returns options rules fs turn others other) : body = other := by
  have hwrites := (h.writes ⟨[]⟩).symm.trans (h'.writes ⟨[]⟩)
  exact (Prod.mk.inj (List.cons.inj hwrites).1).2

/-- A source that reads as a text with a body comes back as the body. -/
theorem Setting.returns (h : Setting options rules target fs sources)
    (hsource : source ∈ sources) {read : Text} (hbody : IsBody rules (Comment.strip read)) :
    ∃ names, Returns options rules fs (source, some read) names (Comment.strip read) := by
  have hrestorable := h.restorable _ hsource
  obtain ⟨names, hlies⟩ := hrestorable.below
  have hnames := hrestorable.isEntryName h.linkFree h.isTree hlies
  refine ⟨names, hlies, hnames, fun target => ?_⟩
  rw [turnWrites, extract_header hrestorable hlies hbody]
  exact segmentWrites_extract hnames target (Comment.strip read)

section Turns

variable {list : List (Path × Option Text)}
  (hreturns : ∀ turn ∈ list, ∃ names body, Returns options rules fs turn names body)
include hreturns

/-- The writes of sources that come back. -/
theorem mem_flatMap_turnWrites (target : Path) {path : Path} {text : Text} :
    (path, text) ∈ list.flatMap (turnWrites options rules target fs) ↔
      ∃ turn ∈ list, ∃ names, Returns options rules fs turn names text ∧
        path = target.join (shown names) := by
  rw [List.mem_flatMap]
  constructor
  · rintro ⟨turn, hturn, hmem⟩
    obtain ⟨names, body, hreturn⟩ := hreturns turn hturn
    rw [hreturn.writes, List.mem_singleton] at hmem
    obtain ⟨rfl, rfl⟩ := Prod.mk.inj hmem
    exact ⟨turn, hturn, names, hreturn, rfl⟩
  · rintro ⟨turn, hturn, names, hreturn, rfl⟩
    refine ⟨turn, hturn, ?_⟩
    rw [hreturn.writes]
    exact List.mem_cons_self

/-- The last write at names below the target is that of a source with these names. -/
theorem exists_of_lastWrite
    (hlast : lastWrite fs.workingDir (list.flatMap (turnWrites options rules target fs))
      (target.spelled fs.workingDir ++ names) = some body) :
    ∃ turn ∈ list, Returns options rules fs turn names body := by
  obtain ⟨path, hmem, hpath⟩ := mem_of_lastWrite hlast
  obtain ⟨turn, hturn, others, hreturn, rfl⟩ := (mem_flatMap_turnWrites hreturns target).mp hmem
  rw [shown, spelled_join_ofNames hreturn.isEntryName] at hpath
  obtain rfl := List.append_cancel_left hpath
  exact ⟨turn, hturn, hreturn⟩

/-- There is a last write at the names of every source. -/
theorem exists_lastWrite (target : Path) {turn : Path × Option Text} (hturn : turn ∈ list)
    (hlies : LiesAt fs.workingDir options.base turn.1 names) :
    ∃ found, lastWrite fs.workingDir (list.flatMap (turnWrites options rules target fs))
      (target.spelled fs.workingDir ++ names) = some found := by
  obtain ⟨others, body, hreturn⟩ := hreturns turn hturn
  obtain rfl := hlies.unique hreturn.lies
  apply Option.ne_none_iff_exists'.mp
  rw [Ne, lastWrite_eq_none_iff]
  intro hnone
  have hmem := (mem_flatMap_turnWrites hreturns target).mpr ⟨turn, hturn, names, hreturn, rfl⟩
  exact hnone _ hmem (spelled_join_ofNames hreturn.isEntryName target)

end Turns

/-- Files at one location read alike. -/
theorem readText_eq (hfs : fs.LinkFree) {other : Path} (hsource : fs.isFile source = true)
    (hother : fs.isFile other = true)
    (h : source.lexicalLocation? fs.workingDir = other.lexicalLocation? fs.workingDir) :
    fs.readText source = fs.readText other := by
  obtain ⟨location, bytes, hstat⟩ := (isFile_iff fs source).mp hsource
  obtain ⟨location', bytes', hstat'⟩ := (isFile_iff fs other).mp hother
  rw [lexicalLocation?_of_stat hfs hstat, lexicalLocation?_of_stat hfs hstat'] at h
  obtain rfl := Option.some.inj h
  obtain rfl := Entry.file.inj (Option.some.inj
    ((stat_ok hfs hstat).2.1.symm.trans (stat_ok hfs hstat').2.1))
  rw [readText, readText, readBytes_ok_iff.mpr ⟨_, hstat⟩, readBytes_ok_iff.mpr ⟨_, hstat'⟩]

theorem mem_turns {turn : Path × Option Text} (h : turn ∈ turns options fs sources) :
    turn.1 ∈ sources ∧ (turn.2 = (fs.readText turn.1).toOption ∨
      turn.1 ∈ sources.drop chunkSize ∧ turn.2 = laterText? options fs sources turn.1) := by
  rcases List.mem_append.mp h with hmem | hmem
  · obtain ⟨source, hsource, rfl⟩ := List.mem_map.mp hmem
    exact ⟨List.mem_of_mem_take hsource, Or.inl rfl⟩
  · obtain ⟨source, hsource, rfl⟩ := List.mem_map.mp hmem
    exact ⟨List.mem_of_mem_drop hsource, Or.inr ⟨hsource, rfl⟩⟩

theorem map_fst_turns (options : Flatten.Options) (fs : FileSystem) (sources : List Path) :
    (turns options fs sources).map Prod.fst = sources := by
  rw [turns, List.map_append, List.map_map, List.map_map]
  have hid : ∀ list : List Path, list.map id = list := List.map_id
  exact (congrArg₂ (· ++ ·) (hid _) (hid _)).trans (List.take_append_drop chunkSize sources)

/-- Without a spoilt source, every source comes back as its body. -/
theorem Setting.returns_of_not_spoils (h : Setting options rules target fs sources)
    (hsafe : ∀ source text, ¬Spoils options fs sources source text) :
    ∀ turn ∈ turns options fs sources, ∃ names text, fs.readText turn.1 = .ok text ∧
      Returns options rules fs turn names (Comment.strip text) := by
  rintro ⟨source, read?⟩ hturn
  obtain ⟨hsource, hread⟩ := mem_turns hturn
  obtain ⟨original, horiginal⟩ := exists_readText (h.restorable _ hsource).isFile
  have hbody := (h.restorable _ hsource).body original horiginal
  rcases hread with hstart | ⟨hlater, hread⟩
  · rw [horiginal] at hstart
    obtain rfl := hstart
    obtain ⟨names, hreturn⟩ := h.returns hsource hbody
    exact ⟨names, original, horiginal, hreturn⟩
  · obtain ⟨text, htext⟩ := exists_laterText? horiginal
    obtain rfl := hread.trans htext
    have hsame : Comment.strip text = Comment.strip original := by
      by_contra hne
      refine hsafe source text ⟨hlater, htext, fun other hother => ?_⟩
      rwa [Except.ok.inj (hother.symm.trans horiginal)]
    rw [← hsame] at hbody
    obtain ⟨names, hreturn⟩ := h.returns hsource hbody
    rw [hsame] at hreturn
    exact ⟨names, original, horiginal, hreturn⟩

theorem Setting.undisturbed (h : Setting options rules target fs sources)
    (hsafe : ∀ source text, ¬Spoils options fs sources source text) :
    Undisturbed options rules target fs sources := by
  have hreturns := h.returns_of_not_spoils hsafe
  have hall : ∀ turn ∈ turns options fs sources, ∃ names body,
      Returns options rules fs turn names body := by
    intro turn hturn
    obtain ⟨names, text, -, hreturn⟩ := hreturns turn hturn
    exact ⟨names, _, hreturn⟩
  have hbodies : ∀ names body, lastWrite fs.workingDir
      (returnedWrites options rules target fs sources) (target.spelled fs.workingDir ++ names) =
        some body → IsBodyAt options fs sources names body := by
    intro names body hlast
    obtain ⟨turn, hturn, hreturn⟩ := exists_of_lastWrite hall hlast
    obtain ⟨others, text, htext, hreturn'⟩ := hreturns turn hturn
    exact ⟨turn.1, (mem_turns hturn).1, text, hreturn.lies, htext, hreturn.body_unique hreturn'⟩
  intro names body
  constructor
  · exact hbodies names body
  · rintro ⟨source, hsource, text, hlies, htext, rfl⟩
    rw [← map_fst_turns options fs sources] at hsource
    obtain ⟨turn, hturn, rfl⟩ := List.mem_map.mp hsource
    obtain ⟨found, hfound⟩ := exists_lastWrite hall target hturn hlies
    obtain ⟨other, hother, original, hlies', horiginal, rfl⟩ := hbodies names found hfound
    have hsame := readText_eq h.linkFree (h.restorable _ (mem_turns hturn).1).isFile
      (h.restorable _ hother).isFile (hlies.lexicalLocation?_eq hlies')
    rw [htext, horiginal] at hsame
    rw [Except.ok.inj hsame]
    exact hfound

/-- A spoilt source lies where the first output has replaced a file. -/
theorem Spoils.replaced? {text : Text} (hspoils : Spoils options fs sources source text) :
    ∃ location, replaced? options fs sources = some (location, text) ∧
      source.lexicalLocation? fs.workingDir = some location := by
  obtain ⟨-, hlater, hdiffers⟩ := hspoils
  exact (laterText?_eq_some hlater).resolve_right fun hread => hdiffers text hread rfl

/-- When a source is spoilt and the text it reads as has a body, that body takes the place of its
own. -/
theorem Setting.not_undisturbed (h : Setting options rules target fs sources) {text : Text}
    (hspoils : Spoils options fs sources source text)
    (hbody : IsBody rules (Comment.strip text)) :
    ¬Undisturbed options rules target fs sources := by
  intro hundisturbed
  obtain ⟨location, hreplaced, hlocation⟩ := hspoils.replaced?
  obtain ⟨hlater, hread, hdiffers⟩ := hspoils
  have hsource := List.mem_of_mem_drop hlater
  obtain ⟨names, hlies⟩ := (h.restorable _ hsource).below
  -- Every later source comes back, as the body it has at the start or as that of the text.
  have hback : ∀ turn ∈ (sources.drop chunkSize).map
      (fun source => (source, laterText? options fs sources source)),
      ∃ names body, Returns options rules fs turn names body := by
    intro turn hturn
    obtain ⟨other, hother, rfl⟩ := List.mem_map.mp hturn
    have hmem := List.mem_of_mem_drop hother
    obtain ⟨original, horiginal⟩ := exists_readText (h.restorable _ hmem).isFile
    obtain ⟨found, hfound⟩ := exists_laterText? horiginal
    have hfoundBody : IsBody rules (Comment.strip found) := by
      rcases laterText?_eq_some hfound with ⟨place, hplace, -⟩ | hstart
      · obtain ⟨-, rfl⟩ := Prod.mk.inj (Option.some.inj (hplace.symm.trans hreplaced))
        exact hbody
      · exact (h.restorable _ hmem).body found hstart
    rw [hfound]
    obtain ⟨names, hreturn⟩ := h.returns hmem hfoundBody
    exact ⟨names, _, hreturn⟩
  obtain ⟨found, hfound⟩ := exists_lastWrite hback target (List.mem_map_of_mem hlater) hlies
  obtain ⟨turn, hturn, hreturn⟩ := exists_of_lastWrite hback hfound
  obtain ⟨other, hother, rfl⟩ := List.mem_map.mp hturn
  -- The last of them at the names reads as the text, since it is at the same location.
  have hsame := hreturn.lies.lexicalLocation?_eq hlies
  rw [laterText?_of_replaced hreplaced (hsame.trans hlocation)] at hreturn
  obtain ⟨others, hreturn'⟩ := h.returns (List.mem_of_mem_drop hother) hbody
  obtain rfl := hreturn.body_unique hreturn'
  have hlast : lastWrite fs.workingDir (returnedWrites options rules target fs sources)
      (target.spelled fs.workingDir ++ names) = some (Comment.strip text) := by
    rw [returnedWrites, turns, List.flatMap_append, lastWrite_append, hfound, Option.some_or]
  obtain ⟨source', hmem, original, hlies', horiginal, heq⟩ := (hundisturbed names _).mp hlast
  refine hdiffers original ?_ heq
  rw [← horiginal]
  exact readText_eq h.linkFree (h.restorable _ hsource).isFile (h.restorable _ hmem).isFile
    (hlies.lexicalLocation?_eq hlies')

section Outputs

variable {run : Run} {done outs : List Output} {restored : FileSystem}

/-- Flattening puts no file below the target. -/
theorem Setting.vacant_of_tracks (h : Setting options rules target fs sources)
    (htracks : Tracks options fs run done) (names : List Name) (bytes : List UInt8) :
    run.batch.fs.get? (target.spelled fs.workingDir ++ names) ≠ some (.file bytes) := by
  intro hget
  apply h.vacant names bytes
  apply (htracks.file_iff_of_ne _).mp hget
  intro o ho heq
  obtain ⟨name, hname, -, -, hpath⟩ := htracks.entries o ho
  rw [hpath, spelled_child_name _ _ hname] at heq
  rcases List.eq_nil_or_concat names with rfl | ⟨front, last, rfl⟩
  · rw [List.append_nil] at heq
    exact h.apart ⟨[name], heq⟩
  · rw [List.concat_eq_append, ← List.append_assoc] at heq
    exact h.outside ⟨front, (List.append_inj' heq rfl).1.symm⟩

/-- What is read in the outputs is what the sources come back as. -/
theorem plannedWrites_eq (htracks : Tracks options fs run done)
    (hstrips : options.stripComments = true) (target : Path) (hsub : outs ⊆ done)
    {list : List (Path × Option Text)}
    (hflattens : List.Forall₂ (fun turn o => o.Flattens options fs turn) list outs) :
    Distribute.plannedWrites ⟨target, false⟩ rules run.batch.fs (outs.map (·.destination)) =
      list.flatMap (turnWrites options rules target fs) := by
  induction hflattens with
  | nil => rfl
  | @cons turn o list outs hflatten hrest ih =>
      obtain ⟨source, read?⟩ := turn
      obtain ⟨-, read, rfl, htext⟩ := hflatten
      have hread : run.batch.fs.readText o.destination = .ok o.text := by
        rw [readText, readBytes_ok_iff.mpr ⟨_, htracks.stat_output (hsub List.mem_cons_self)⟩]
        exact congrArg Except.ok (decodeLossy_encodeUtf8 o.text)
      have htail := ih fun p hp => hsub (List.mem_cons_of_mem _ hp)
      rw [Distribute.plannedWrites] at htail ⊢
      rw [List.map_cons, List.flatMap_cons, List.flatMap_cons, htail, Distribute.readSegments,
        hread, htext, bodyOf, hstrips, if_pos rfl]
      rfl

/-- The sources are restored exactly when nothing disturbs what comes back. -/
theorem Setting.restored_iff (h : Setting options rules target fs sources)
    (htracks : Tracks options fs run done)
    (hwrote : Wrote run.batch.fs (returnedWrites options rules target fs sources) restored) :
    Restored options target fs sources restored ↔
      Undisturbed options rules target fs sources := by
  have hfile : ∀ names bytes,
      restored.get? (target.spelled fs.workingDir ++ names) = some (.file bytes) ↔
        ∃ body, lastWrite fs.workingDir (returnedWrites options rules target fs sources)
          (target.spelled fs.workingDir ++ names) = some body ∧ bytes = encodeUtf8 body := by
    intro names bytes
    rw [hwrote.file_iff, htracks.wrote.workingDir]
    cases lastWrite fs.workingDir (returnedWrites options rules target fs sources)
        (target.spelled fs.workingDir ++ names) with
    | none => simp [h.vacant_of_tracks htracks]
    | some body => simp
  constructor
  · intro hrestored names body
    have hbody := (hfile names (encodeUtf8 body)).symm.trans (hrestored names (encodeUtf8 body))
    simpa [encodeUtf8_inj] using hbody
  · intro hundisturbed names bytes
    rw [hfile]
    simp only [hundisturbed names]

end Outputs

/-- Distributing the flattened sources restores them exactly when nothing disturbs what comes
back. Nothing does unless a later source reads as the first output. Then its own body is lost,
when the text it reads as has a body. -/
theorem thereAndBack_restored (h : Setting options rules target fs sources)
    (hflat : (Flatten.files options fs sources).report.WritesSucceed)
    (hback : (thereAndBack options rules target fs sources).report.WritesSucceed) :
    (Restored options target fs sources (thereAndBack options rules target fs sources).fs ↔
      Undisturbed options rules target fs sources) ∧
    ((∀ source text, ¬Spoils options fs sources source text) →
      Restored options target fs sources (thereAndBack options rules target fs sources).fs) ∧
    ∀ source text, Spoils options fs sources source text → IsBody rules (Comment.strip text) →
      ¬Restored options target fs sources
        (thereAndBack options rules target fs sources).fs := by
  have hnamed : ∀ source ∈ sources, IsNamedFile fs source := fun source hsource =>
    ⟨(h.restorable _ hsource).isFile,
      h.isTree.fileName?_of_isFile h.linkFree (h.restorable _ hsource).isFile⟩
  obtain ⟨run, done, hrun, htracks, hflattens⟩ :=
    exists_outputs h.linkFree h.real h.numbers hnamed hflat
  have hiff : Restored options target fs sources
      (thereAndBack options rules target fs sources).fs ↔
        Undisturbed options rules target fs sources := by
    rw [thereAndBack, hrun] at hback ⊢
    have hwrote := Distribute.wrote_files rfl htracks.wrote.linkFree hback
    rw [htracks.outputs, plannedWrites_eq htracks h.strips target (List.Subset.refl done)
      hflattens] at hwrote
    rw [htracks.outputs]
    exact h.restored_iff htracks hwrote
  refine ⟨hiff, ?_, ?_⟩
  · intro hsafe
    exact hiff.mpr (h.undisturbed hsafe)
  · intro source text hspoils hbody
    rw [hiff]
    exact h.not_undisturbed hspoils hbody

/-- A directory with two files of one name, one of them further down. -/
def sameNames : FileSystem :=
  ⟨[([['s']], .directory), ([['s'], ['a', '.', 'b']], .file [120]), ([['s'], ['t']], .directory),
    ([['s'], ['t'], ['a', '.', 'b']], .file [121])], []⟩

/-- The two files. -/
def sameNamed : List Path :=
  [⟨['s', '/', 'a', '.', 'b']⟩, ⟨['s', '/', 't', '/', 'a', '.', 'b']⟩]

/-- Flattening the directory into a new one. -/
def strippedInto (outDir : Path) : Flatten.Options :=
  ⟨outDir, ⟨['s']⟩, .renameWithSuffix, true, false⟩

/-- Without aliases, a source is restorable by the form of its names and its body. -/
theorem restorable_of_liesAt {text : Text} (hfile : fs.isFile source = true)
    (hlies : LiesAt fs.workingDir options.base source names)
    (hshape : PathLabel.IsPathText (shown names).text) (hread : fs.readText source = .ok text)
    (hbody : IsBody [] (Comment.strip text)) : Restorable options [] fs source := by
  refine ⟨hfile, ⟨names, hlies⟩, ?_, fun _ _ => rfl, ?_⟩
  · intro path hpath
    rw [← Option.some.inj (hlies.stepsFrom?_eq.symm.trans hpath)]
    exact hshape
  · intro found hfound
    rw [← Except.ok.inj (hread.symm.trans hfound)]
    exact hbody

theorem sameNamed_restorable :
    ∀ source ∈ sameNamed, Restorable (strippedInto ⟨['o']⟩) [] sameNames source := by
  intro source hsource
  rcases List.mem_cons.mp hsource with rfl | hsource
  · have hlies : LiesAt sameNames.workingDir (strippedInto ⟨['o']⟩).base
        ⟨['s', '/', 'a', '.', 'b']⟩ [['a', '.', 'b']] := ⟨[['s']], by decide, by decide⟩
    have hread : sameNames.readText ⟨['s', '/', 'a', '.', 'b']⟩ = .ok ['x'] := by decide
    apply restorable_of_liesAt (by decide) hlies _ hread ⟨by decide, by decide⟩
    exact Or.inl (PathLabel.isExtended_append ['a'] ['b'] (by decide) (by decide))
  · rw [List.mem_singleton.mp hsource]
    have hlies : LiesAt sameNames.workingDir (strippedInto ⟨['o']⟩).base
        ⟨['s', '/', 't', '/', 'a', '.', 'b']⟩ [['t'], ['a', '.', 'b']] :=
      ⟨[['s']], by decide, by decide⟩
    have hread : sameNames.readText ⟨['s', '/', 't', '/', 'a', '.', 'b']⟩ = .ok ['y'] := by decide
    apply restorable_of_liesAt (by decide) hlies _ hread ⟨by decide, by decide⟩
    exact Or.inl (PathLabel.isExtended_append ['t', '/', 'a'] ['b'] (by decide) (by decide))

/-- Both files are restored, though the second is flattened to another name than its own. -/
theorem sameNamed_restored :
    Restored (strippedInto ⟨['o']⟩) ⟨['r']⟩ sameNames sameNamed
      (thereAndBack (strippedInto ⟨['o']⟩) [] ⟨['r']⟩ sameNames sameNamed).fs := by
  have hsetting : Setting (strippedInto ⟨['o']⟩) [] ⟨['r']⟩ sameNames sameNamed := by
    refine ⟨linkFree_of_entries (by simp [sameNames]), isTree_of_entries (by decide) (by decide),
      rfl, rfl, rfl, sameNamed_restorable, ?_, by decide, by decide⟩
    intro names bytes hget
    have htarget : Path.spelled sameNames.workingDir ⟨['r']⟩ = [['r']] := by decide
    rw [htarget] at hget
    have hmem := mem_entries_of_get? (by simp) hget
    simp [sameNames] at hmem
  have hflat : (Flatten.files (strippedInto ⟨['o']⟩) sameNames sameNamed).report.failures = [] := by
    decide
  have hback : (thereAndBack (strippedInto ⟨['o']⟩) [] ⟨['r']⟩ sameNames
      sameNamed).report.failures = [] := by decide
  refine (thereAndBack_restored hsetting (fun path e => ?_) (fun path e => ?_)).2.1 ?_
  · rw [hflat]
    simp
  · rw [hback]
    simp
  · rintro source text ⟨hlater, -⟩
    cases hlater

end TreeFold.RoundTrip
