import TreeFold.Flatten
import TreeFold.Proofs.Distribute.Run
import TreeFold.Proofs.Path.Relative
import TreeFold.Proofs.Segment.LongestPath
import TreeFold.Proofs.Segment.Render

/-!
# Reading the header of a flat file

The header of a flat file records the path from the base to the source. Read as an annotation, its
first line names the longest start of that path that has the shape of an annotated path, blanks at
its front left out, and the body up to its first annotation belongs to what is named. The recorded
path is read back exactly when the whole of it has that shape: what stands behind the last
extension is not read.

A distribution puts this part of the body where the alias rules take what was read. So it gets to
the recorded path, which must not step up, exactly when the rules make the recorded path of what
was read.
-/

namespace TreeFold.Flatten

open Text PathLabel Segment TreeFold.Path

variable {workingDir : Location} {source base path : Path}

theorem header_eq (h : source.stepsFrom? workingDir base = some path) :
    header workingDir source base = "// ".toList ++ path.text ++ ['\n', '\n'] := by
  delta header
  rw [h]

theorem not_isLineBreak_of_all {text : Text} (h : text.all (!isLineBreak ·) = true) :
    ∀ c ∈ text, isLineBreak c = false := by
  intro c hc
  simpa using List.all_eq_true.mp h c hc

/-- The lines of a flat file are the annotation, an empty line and the lines of the body. -/
theorem linesInclusive_header (hsteps : source.stepsFrom? workingDir base = some path)
    (hplain : ∀ c ∈ path.text, isLineBreak c = false) (body : Text) :
    linesInclusive (header workingDir source base ++ body) =
      ("// ".toList ++ path.text ++ ['\n']) :: ['\n'] :: linesInclusive body := by
  have hline : ∀ c ∈ "// ".toList ++ path.text, isLineBreak c = false := by
    intro c hc
    rcases List.mem_append.mp hc with hc | hc
    · exact not_isLineBreak_of_all (by decide) c hc
    · exact hplain c hc
  have hannotation : BreakBetween ("// ".toList ++ path.text ++ ['\n']) (['\n'] ++ body) := by
    rw [BreakBetween, EndsInBreak, List.getLast?_concat]
    exact ⟨rfl, fun hcr => absurd hcr.1 (by decide)⟩
  have hblank : BreakBetween ['\n'] body := ⟨rfl, fun hcr => absurd hcr.1 (by decide)⟩
  calc
    linesInclusive (header workingDir source base ++ body)
        = linesInclusive ("// ".toList ++ path.text ++ ['\n'] ++ (['\n'] ++ body)) := by
          rw [header_eq hsteps]
          simp
    _ = linesInclusive ("// ".toList ++ path.text ++ ['\n']) ++
          (linesInclusive ['\n'] ++ linesInclusive body) := by
          rw [linesInclusive_append (Or.inr (Or.inr hannotation)),
            linesInclusive_append (Or.inr (Or.inr hblank))]
    _ = ("// ".toList ++ path.text ++ ['\n']) :: ['\n'] :: linesInclusive body := by
          rw [linesInclusive_line '\n' hline]
          rfl

/-- The segment of the header: the body up to its first annotation, when there is any. -/
def headerSegment? (rules : List AliasRule) (body : Text) (label : PathLabel) : Option Segment :=
  let owned := (group rules (linesInclusive body)).preamble
  if owned = [] then none else some ⟨label.path, label.raw, owned.flatten⟩

/-- The empty line of a header is not part of what the header owns. -/
theorem ofSection?_header (rules : List AliasRule) (body : Text) (label : PathLabel) :
    ofSection? (label, ['\n'] :: (group rules (linesInclusive body)).preamble) =
      headerSegment? rules body label := by
  have hdrop : dropBlankLine (['\n'] :: (group rules (linesInclusive body)).preamble) =
      (group rules (linesInclusive body)).preamble := by
    rw [dropBlankLine, if_pos (by decide)]
  rw [ofSection?, hdrop, headerSegment?]
  cases (group rules (linesInclusive body)).preamble <;> simp

/-- A flat file holds the segment of its header, when the header names a path, and the segments of
the body. -/
theorem extract_header_append (rules : List AliasRule)
    (hsteps : source.stepsFrom? workingDir base = some path)
    (hplain : ∀ c ∈ path.text, isLineBreak c = false) (body : Text) :
    extract rules (header workingDir source base ++ body) =
      ((ofLine? rules ("// ".toList ++ path.text ++ ['\n'])).bind
        (headerSegment? rules body)).toList ++ extract rules body := by
  rw [extract, linesInclusive_header hsteps hplain]
  cases h : ofLine? rules ("// ".toList ++ path.text ++ ['\n']) with
  | none =>
      rw [group_cons_of_none h, group_cons_of_none ofLine?_lineFeed]
      rfl
  | some label =>
      rw [group_cons_of_some h, group_cons_of_none ofLine?_lineFeed, List.filterMap_cons,
        Option.bind_some, ofSection?_header]
      cases headerSegment? rules body label <;> rfl

/-- Where a distribution puts the segment of an annotation. -/
def labelDestination? (target : Path) (label : PathLabel) : Option Path :=
  Distribute.destination? target label.path

/-- A label is put where the alias rules take its path, unless this is absolute or steps up. -/
theorem labelDestination?_eq_some_iff {rules : List AliasRule} {line : Text} {target place : Path} :
    (ofLine? rules line).bind (labelDestination? target) = some place ↔
      ∃ raw, (ofLine? rules line).map PathLabel.raw = some raw ∧
        (Path.mk (AliasRule.normalize rules raw)).isContained = true ∧
        place = target.join ⟨AliasRule.normalize rules raw⟩ := by
  rw [ofLine?]
  cases rawPath? line with
  | none => simp
  | some raw =>
      simp only [Option.map_some, Option.bind_some, labelDestination?, Distribute.destination?,
        Option.some.injEq, exists_eq_left']
      split
      · rename_i hcontained
        simp [hcontained, eq_comm]
      · rename_i hcontained
        simp [hcontained]

/-- A label is put at a path that stays below the target when the alias rules make this path. -/
theorem labelDestination?_eq_join_iff {rules : List AliasRule} {line : Text} {target : Path}
    (hcontained : path.isContained = true) :
    (ofLine? rules line).bind (labelDestination? target) = some (target.join path) ↔
      ∃ raw, (ofLine? rules line).map PathLabel.raw = some raw ∧
        AliasRule.normalize rules raw = path.text := by
  have hrelative := ((isContained_iff path).mp hcontained).1
  rw [labelDestination?_eq_some_iff]
  refine exists_congr fun raw => and_congr_right fun _ => ?_
  constructor
  · rintro ⟨hstays, hplace⟩
    have hsame := (join_inj target hrelative ((isContained_iff _).mp hstays).1).mp hplace
    rw [hsame]
  · intro hnormal
    rw [hnormal]
    exact ⟨hcontained, rfl⟩

/-- The first line of a header names the longest start of the recorded path, blanks at its front
left out, that has the shape of an annotated path, and it names nothing when no start has. So the
recorded path is named exactly when the whole of it has this shape. What is named owns the body up
to the first annotation in it, and a distribution puts this below the target where the alias rules
take what is named, unless that is absolute or steps up. A recorded path that does not step up is
where it is put exactly when this is what the rules make of what is named, and so, when the rules
leave what is named as it is, exactly when the whole recorded path has the shape. -/
theorem header_names (rules : List AliasRule)
    (hsteps : source.stepsFrom? workingDir base = some path)
    (hplain : ∀ c ∈ path.text, isLineBreak c = false) :
    ∃ line, (linesInclusive (header workingDir source base)).head? = some line ∧
      (∀ raw, (ofLine? rules line).map PathLabel.raw = some raw ↔
        IsLongest IsPathText raw (path.text.dropWhile isBlank)) ∧
      (ofLine? rules line = none ↔
        ∀ start, start <+: path.text.dropWhile isBlank → ¬IsPathText start) ∧
      ((ofLine? rules line).map PathLabel.raw = some path.text ↔ IsPathText path.text) ∧
      (∀ body, extract rules (header workingDir source base ++ body) =
        ((ofLine? rules line).bind (headerSegment? rules body)).toList ++ extract rules body) ∧
      ∀ target,
        (∀ body, Distribute.segmentWrites target
            (extract rules (header workingDir source base ++ body)) =
          Distribute.segmentWrites target
              ((ofLine? rules line).bind (headerSegment? rules body)).toList ++
            Distribute.segmentWrites target (extract rules body)) ∧
        (∀ place, (ofLine? rules line).bind (labelDestination? target) = some place ↔
          ∃ raw, IsLongest IsPathText raw (path.text.dropWhile isBlank) ∧
            (Path.mk (AliasRule.normalize rules raw)).isContained = true ∧
            place = target.join ⟨AliasRule.normalize rules raw⟩) ∧
        (path.isContained = true →
          ((ofLine? rules line).bind (labelDestination? target) = some (target.join path) ↔
            ∃ raw, IsLongest IsPathText raw (path.text.dropWhile isBlank) ∧
              AliasRule.normalize rules raw = path.text)) ∧
        (path.isContained = true →
          (∀ raw, IsLongest IsPathText raw (path.text.dropWhile isBlank) →
            AliasRule.normalize rules raw = raw) →
          ((ofLine? rules line).bind (labelDestination? target) = some (target.join path) ↔
            IsPathText path.text)) := by
  have hlines := linesInclusive_header hsteps hplain []
  rw [List.append_nil] at hlines
  have hraw : (ofLine? rules ("// ".toList ++ path.text ++ ['\n'])).map PathLabel.raw =
      markedPath? (path.text.dropWhile isBlank) := by
    rw [ofLine?, ← rawPath?_written]
    cases rawPath? ("// ".toList ++ path.text ++ ['\n']) <;> rfl
  have hlongest : ∀ raw, (ofLine? rules ("// ".toList ++ path.text ++ ['\n'])).map PathLabel.raw =
      some raw ↔ IsLongest IsPathText raw (path.text.dropWhile isBlank) := by
    intro raw
    rw [hraw]
    exact markedPath?_eq_some_iff
  have hextract := extract_header_append rules hsteps hplain
  have hwhole : IsLongest IsPathText path.text (path.text.dropWhile isBlank) ↔
      IsPathText path.text := by
    constructor
    · exact IsLongest.holds
    · intro h
      rw [dropWhile_isBlank_of_isPathText h]
      exact isLongest_self h
  refine ⟨"// ".toList ++ path.text ++ ['\n'], by rw [hlines, List.head?_cons], hlongest,
    ?_, ?_, hextract, fun target =>
      ⟨fun body => ?_, fun place => ?_, fun hcontained => ?_, fun hcontained hleft => ?_⟩⟩
  · rw [← Option.map_eq_none_iff (f := PathLabel.raw), hraw]
    exact markedPath?_eq_none_iff
  · rw [hlongest, hwhole]
  · rw [hextract body, Distribute.segmentWrites, List.filterMap_append]
    rfl
  · rw [labelDestination?_eq_some_iff]
    simp only [hlongest]
  · rw [labelDestination?_eq_join_iff hcontained]
    simp only [hlongest]
  · rw [labelDestination?_eq_join_iff hcontained, ← hwhole]
    simp only [hlongest]
    constructor
    · rintro ⟨raw, hraw, hnormal⟩
      rw [hleft raw hraw] at hnormal
      rwa [hnormal] at hraw
    · exact fun h => ⟨path.text, h, hleft path.text h⟩

/-- The path of a source outside the base is named whole, steps up included, and so it is not put
below the target. -/
theorem besideBase_header_names :
    extract [] (header [['w']] (ofString "lib/../x/a.b") (ofString "src") ++ ['c', '\n']) =
        [⟨"../x/a.b".toList, "../x/a.b".toList, ['c', '\n']⟩] ∧
      Distribute.segmentWrites (ofString "t")
        (extract [] (header [['w']] (ofString "lib/../x/a.b") (ofString "src") ++ ['c', '\n'])) =
          [] := by
  have hsteps : (ofString "lib/../x/a.b").stepsFrom? [['w']] (ofString "src") =
      some (ofString "../x/a.b") := by decide +kernel
  have hshape : IsPathText "../x/a.b".toList :=
    Or.inl (isExtended_append "../x/a".toList ['b'] (by decide) (by decide))
  obtain ⟨line, -, -, -, hwhole, hextract, hwrites⟩ :=
    header_names [] hsteps (not_isLineBreak_of_all (by decide))
  obtain ⟨label, hlabel, hraw⟩ := Option.map_eq_some_iff.mp (hwhole.mpr hshape)
  obtain ⟨raw, -, rfl⟩ := Option.map_eq_some_iff.mp hlabel
  obtain rfl : raw = "../x/a.b".toList := hraw
  rw [(hwrites (ofString "t")).1, hextract, hlabel]
  decide

/-- A directory name with an extension is named in place of the file below it, and the body is put
there. -/
theorem header_names_versionedDirectory :
    (ofString "src/v1.2/Makefile").stepsFrom? [['w']] (ofString "src") =
        some (ofString "v1.2/Makefile") ∧
      (∀ c ∈ "v1.2/Makefile".toList, isLineBreak c = false) ∧
      (linesInclusive (header [['w']] (ofString "src/v1.2/Makefile") (ofString "src"))).head?.bind
        (ofLine? []) = some ⟨"v1.2".toList, "v1.2".toList⟩ ∧
      "v1.2".toList <+: "v1.2/Makefile".toList ∧ "v1.2".toList ≠ "v1.2/Makefile".toList ∧
      Distribute.segmentWrites (ofString "t")
        (extract [] (header [['w']] (ofString "src/v1.2/Makefile") (ofString "src") ++
          ['a', '\n'])) = [(ofString "t/v1.2", ['a', '\n'])] := by
  refine ⟨by decide +kernel, not_isLineBreak_of_all (by decide), ?_⟩
  decide +kernel

end TreeFold.Flatten
