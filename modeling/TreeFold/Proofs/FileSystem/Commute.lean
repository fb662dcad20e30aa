import TreeFold.Proofs.FileSystem.Ways
import TreeFold.Proofs.Path.Relative

/-!
# Writes that commute

Two writes from one start to different places commute when neither place lies on the way to the
other one, unless both ways lead over it. Either order leaves the same entries, and each write ends
as it does without the other.

The error of a write that fails can still depend on the order. When a way steps up, it is told by
whether a directory that it steps out of was there before: the error is that an entry exists
already, or that a file is no directory.
-/

namespace TreeFold.FileSystem

open Component TreeFold.Path Text

variable {fs other later : FileSystem} {path : Path} {place : Location}

section SameEntries

/-- The file systems hold the same entries and are seen from the same directory. -/
structure SameEntries (fs other : FileSystem) : Prop where
  workingDir : other.workingDir = fs.workingDir
  entry : ∀ location, other.get? location = fs.get? location

namespace SameEntries

theorem refl (fs : FileSystem) : fs.SameEntries fs :=
  ⟨rfl, fun _ => rfl⟩

theorem symm (h : fs.SameEntries other) : other.SameEntries fs :=
  ⟨h.workingDir.symm, fun location => (h.entry location).symm⟩

theorem trans (h : fs.SameEntries other) (hlater : other.SameEntries later) :
    fs.SameEntries later :=
  ⟨hlater.workingDir.trans h.workingDir,
    fun location => (hlater.entry location).trans (h.entry location)⟩

theorem retains (h : fs.SameEntries other) : fs.Retains other where
  workingDir := h.workingDir
  directory := fun location hget => (h.entry location).trans hget
  file := fun location bytes hget => ⟨bytes, (h.entry location).trans hget⟩

theorem linkFree (h : fs.SameEntries other) (hfs : fs.LinkFree) : other.LinkFree := by
  intro location target
  rw [h.entry]
  exact hfs location target

theorem isTree (h : fs.SameEntries other) (htree : fs.IsTree) : other.IsTree := by
  obtain ⟨hparent, hdir, hnames⟩ := htree
  constructor
  · simpa only [h.entry] using hparent
  · simpa only [h.entry, h.workingDir] using hdir
  · simpa only [h.entry] using hnames

end SameEntries

/-- Without links, an entry is told by whether it is a directory or which file it is. -/
theorem get?_eq_of_iff (hfs : fs.LinkFree) (hother : other.LinkFree)
    (hdirectory : other.get? place = some .directory ↔ fs.get? place = some .directory)
    (hfile : ∀ bytes, other.get? place = some (.file bytes) ↔
      fs.get? place = some (.file bytes)) : other.get? place = fs.get? place := by
  refine Option.ext fun entry => ?_
  cases entry with
  | directory => exact hdirectory
  | file bytes => exact hfile bytes
  | link target => exact iff_of_false (hother place target) (hfs place target)

theorem sameEntries_of_iff (hfs : fs.LinkFree) (hother : other.LinkFree)
    (hdir : other.workingDir = fs.workingDir)
    (hdirectory : ∀ location, other.get? location = some .directory ↔
      fs.get? location = some .directory)
    (hfile : ∀ location bytes, other.get? location = some (.file bytes) ↔
      fs.get? location = some (.file bytes)) : fs.SameEntries other :=
  ⟨hdir, fun location => get?_eq_of_iff hfs hother (hdirectory location) (hfile location)⟩

end SameEntries

section SameWay

/-- A write to the path meets the same on its way, and at its end once the directories are made
that lead there. -/
structure SameWay (fs other : FileSystem) (path : Path) : Prop where
  workingDir : other.workingDir = fs.workingDir
  clear : ∀ front, front <+: path.moves.dropLast →
    (other.Clear (path.start fs.workingDir) front ↔ fs.Clear (path.start fs.workingDir) front)
  directory : AllowsParents path →
    (other.get? (path.spelled fs.workingDir) = some .directory ∨
        other.Opens path (path.spelled fs.workingDir) ↔
      fs.get? (path.spelled fs.workingDir) = some .directory ∨
        fs.Opens path (path.spelled fs.workingDir))
  file : ∀ bytes, other.get? (path.spelled fs.workingDir) = some (.file bytes) ↔
    fs.get? (path.spelled fs.workingDir) = some (.file bytes)

namespace SameWay

theorem opens_iff (h : SameWay fs other path) : other.Opens path place ↔ fs.Opens path place := by
  rw [Opens, Opens, h.workingDir]
  refine and_congr_right fun _ => exists_congr fun front => and_congr_right fun hfront => ?_
  rw [h.clear front hfront]

theorem writable_iff (h : SameWay fs other path) : other.Writable path ↔ fs.Writable path := by
  have hclear := h.clear _ List.prefix_rfl
  constructor
  · rintro ⟨hnameable, hallows, hway, hvacant⟩
    rw [h.workingDir, hclear] at hway
    rw [h.workingDir, h.directory hallows] at hvacant
    exact ⟨hnameable, hallows, hway, hvacant⟩
  · rintro ⟨hnameable, hallows, hway, hvacant⟩
    refine ⟨hnameable, hallows, ?_, ?_⟩
    · rwa [h.workingDir, hclear]
    · rwa [h.workingDir, h.directory hallows]

end SameWay

theorem SameEntries.clear_iff (h : fs.SameEntries other) {location : Location}
    {moves : List Component} : other.Clear location moves ↔ fs.Clear location moves := by
  simp only [Clear, ne_eq, h.entry]

theorem SameEntries.sameWay (h : fs.SameEntries other) (path : Path) : SameWay fs other path := by
  refine ⟨h.workingDir, fun front _ => h.clear_iff, fun _ => ?_, fun bytes => ?_⟩
  · simp only [Opens, h.entry, h.workingDir, h.clear_iff]
  · rw [h.entry]

end SameWay

section Errors

/-- The cause that the error of a write tells. Where the path steps up, an entry that exists in
place of a directory is one cause with an entry that is no directory. -/
def causeAt (path : Path) (e : Error) : Error :=
  if .parent ∈ path.components ∧ e = .alreadyExists then .notDirectory else e

theorem causeAt_of_not_mem (h : .parent ∉ path.components) (e : Error) : causeAt path e = e := by
  rw [causeAt, if_neg fun hboth => h hboth.1]

/-- On a way that steps up, what is reported tells the cause. -/
theorem causeAt_of_reports {cause e : Error} (hparent : .parent ∈ path.components)
    (h : Reports cause e) : causeAt path e = causeAt path cause := by
  rcases h with rfl | ⟨rfl, rfl⟩
  · rfl
  · simp [causeAt, hparent]

variable {made made' left left' : FileSystem} {e e' : Error} {moves : List Component}
  {location reached reached' : Location} {bytes : List UInt8}

/-- Once the moves before the last one were followed, only the place at the end matters. -/
theorem descend_of_dropLast (h : made.descend location moves.dropLast = .ok reached)
    (h' : made'.descend location moves.dropLast = .ok reached')
    (hplace : made'.get? (moves.foldl followComponent location) =
      made.get? (moves.foldl followComponent location)) :
    made'.descend location moves = made.descend location moves := by
  rcases List.eq_nil_or_concat moves with rfl | ⟨front, c, rfl⟩
  · rw [List.foldl_nil] at hplace
    rw [descend, descend, enter, enter, hplace]
  · rw [List.concat_eq_append] at *
    rw [List.dropLast_concat] at h h'
    rw [List.foldl_concat] at hplace
    obtain ⟨hpasses, rfl⟩ := descend_ok_iff.mp h
    obtain ⟨hpasses', rfl⟩ := descend_ok_iff.mp h'
    rw [descend_append, descend_append, h, h']
    simp only
    rw [descend_cons hpasses.target, descend_cons hpasses'.target, descend, descend, enter, enter,
      hplace]

/-- So the moves before the last piece lead to the same, whether or not that piece makes a move. -/
theorem descend_of_splitLast? {before : List Text} {last : Text}
    (hsplit : splitLast? path = some (before, last))
    (h : made.descend location path.moves.dropLast = .ok reached)
    (h' : made'.descend location path.moves.dropLast = .ok reached')
    (hplace : made'.get? (path.moves.foldl followComponent location) =
      made.get? (path.moves.foldl followComponent location)) :
    made'.descend location (before.filterMap ofPiece?) =
      made.descend location (before.filterMap ofPiece?) := by
  have hmoves := pieces_of_splitLast? hsplit
  cases hpiece : ofPiece? last with
  | none =>
      rw [hpiece, Option.toList_none, List.append_nil] at hmoves
      rw [← hmoves]
      exact descend_of_dropLast h h' hplace
  | some c =>
      rw [hpiece, Option.toList_some] at hmoves
      rw [hmoves, List.dropLast_concat] at h h'
      rw [h, h', (descend_ok_iff.mp h).2, (descend_ok_iff.mp h').2]

/-- A write that fails has failed to make the directories, or to put the text there. -/
theorem overwrite_some_cases {text : Text} (h : fs.overwrite path text = ⟨some e, left⟩) :
    fs.makeParents path = ⟨some e, left⟩ ∨
      fs.makeParents path = ⟨none, left⟩ ∧
        left.writeBytes path (encodeUtf8 text) = .error e := by
  rw [overwrite_eq] at h
  rcases hmake : fs.makeParents path with ⟨_ | cause, made⟩
  · rw [hmake] at h
    simp only [Option.isSome_none, Bool.false_eq_true, if_false] at h
    cases hwrite : made.writeBytes path (encodeUtf8 text) with
    | ok changed => simp [hwrite] at h
    | error cause =>
        rw [hwrite] at h
        cases h
        exact Or.inr ⟨rfl, hwrite⟩
  · rw [hmake] at h
    exact Or.inl h

section Trees

variable (hfs : fs.LinkFree) (htree : fs.IsTree)
include hfs htree

/-- Where what an attempt has left is kept, the way stays blocked for the cause that was
reported. -/
theorem exists_blocked_of_makeParents (hallows : AllowsParents path)
    (h : fs.makeParents path = ⟨some e, left⟩) (hretains : left.Retains later) :
    ∃ cause, later.descend (path.start later.workingDir) path.moves.dropLast = .error cause ∧
      Reports cause e := by
  have hadds := addsDirectories_of_makeParents h
  rcases descend_makeParents hfs htree hallows with
    ⟨made, reached, hmake, -⟩ | ⟨_, _, cause, hmake, hcause, hdescend, hreports⟩
  · rw [h] at hmake
    cases hmake
  · rw [h] at hmake
    cases hmake
    have hkept := descend_retains (hadds.linkFree hfs) hretains
      (by rw [hdescend]; simpa using hcause)
    rw [hretains.workingDir, hadds.workingDir]
    exact ⟨cause, hkept.trans hdescend, hreports⟩

/-- Where what an attempt has left is kept, it ends alike again, unless the path steps up. -/
theorem makeParents_of_retains (hlinks : later.LinkFree) (hlater : later.IsTree)
    (hparent : .parent ∉ path.components) {error? : Option Error}
    (h : fs.makeParents path = ⟨error?, left⟩) (hretains : left.Retains later) :
    later.makeParents path = ⟨error?, later⟩ := by
  obtain ⟨again?, hagain, -, hsame⟩ := makeParents_again hfs htree hlinks hlater
    (by rwa [h] : (fs.makeParents path).fs.Retains later)
  rw [hagain, hsame hparent, h]

variable (hother : other.LinkFree) (hotherTree : other.IsTree)
include hother hotherTree

/-- Where what two attempts have left is kept in one file system, both have failed for one cause. -/
theorem causeAt_makeParents (hlinks : later.LinkFree) (hlater : later.IsTree)
    (h : fs.makeParents path = ⟨some e, left⟩) (h' : other.makeParents path = ⟨some e', left'⟩)
    (hretains : left.Retains later) (hretains' : left'.Retains later) :
    causeAt path e' = causeAt path e := by
  by_cases hallows : AllowsParents path
  · by_cases hparent : .parent ∈ path.components
    · obtain ⟨cause, hblocked, hreports⟩ :=
        exists_blocked_of_makeParents hfs htree hallows h hretains
      obtain ⟨cause', hblocked', hreports'⟩ :=
        exists_blocked_of_makeParents hother hotherTree hallows h' hretains'
      rw [hblocked, Except.error.injEq] at hblocked'
      rw [causeAt_of_reports hparent hreports, causeAt_of_reports hparent hreports', hblocked']
    · have hagain := makeParents_of_retains hfs htree hlinks hlater hparent h hretains
      have hagain' := makeParents_of_retains hother hotherTree hlinks hlater hparent h' hretains'
      rw [hagain, Change.mk.injEq, Option.some.injEq] at hagain'
      rw [hagain'.1]
  · obtain ⟨cause, hmake⟩ := exists_makeParents_of_not hallows
    have hone := hmake fs hfs
    have htwo := hmake other hother
    rw [h] at hone
    rw [h'] at htwo
    cases hone
    cases htwo
    rfl

/-- Behind directories that are there, bytes cannot be put for one reason, when the same stands at
the end. -/
theorem writeBytes_of_get? (hdir : other.workingDir = fs.workingDir)
    (hmake : fs.makeParents path = ⟨none, made⟩) (hmake' : other.makeParents path = ⟨none, made'⟩)
    (hplace : made'.get? (path.spelled fs.workingDir) = made.get? (path.spelled fs.workingDir))
    (h : made.writeBytes path bytes = .error e) : made'.writeBytes path bytes = .error e := by
  have hadds := addsDirectories_of_makeParents hmake
  have hadds' := addsDirectories_of_makeParents hmake'
  have hmade := hadds.linkFree hfs
  have hmade' := hadds'.linkFree hother
  have hmadeTree := htree.makeParents path
  have hmadeTree' := hotherTree.makeParents path
  rw [hmake] at hmadeTree
  rw [hmake'] at hmadeTree'
  rcases named_or_writeBytes path with ⟨dir, name, hname, rfl⟩ | hunnamed
  · have hleads := leads_of_makeParents_child hfs htree hname hmake
    have hleads' := leads_of_makeParents_child hother hotherTree hname hmake'
    rw [writeBytes_of_leads hmade hname hleads, hadds.workingDir] at h
    rw [writeBytes_of_leads hmade' hname hleads', hadds'.workingDir, hdir,
      ← spelled_child_name _ _ hname, hplace, spelled_child_name _ _ hname]
    cases hcheck : checkPath (dir.child name) with
    | error cause => simpa [hcheck] using h
    | ok u =>
        simp only [hcheck] at h ⊢
        split at h
        · rename_i hlong
          rwa [if_pos hlong]
        · rename_i hlong
          split at h
          · rename_i hget
            rwa [if_neg hlong, if_pos hget]
          · cases h
  · rw [hunnamed] at h ⊢
    cases hcheck : checkPath path with
    | error cause => simpa [hcheck] using h
    | ok u =>
        cases hsplit : splitLast? path with
        | none => simpa [hcheck, hsplit] using h
        | some found =>
            obtain ⟨before, last⟩ := found
            obtain ⟨reached, hreached⟩ := exists_descend_of_makeParents hfs htree hmake
            obtain ⟨reached', hreached'⟩ := exists_descend_of_makeParents hother hotherTree hmake'
            rw [hdir] at hreached'
            simp only [hcheck, hsplit, directoryOf_eq hmade hmadeTree, hadds.workingDir] at h
            simp only [directoryOf_eq hmade' hmadeTree', hadds'.workingDir, hdir]
            rwa [descend_of_splitLast? hsplit hreached hreached' hplace]

/-- Either the directories that lead to an entry can be made in both file systems, or in none. -/
theorem SameWay.error?_makeParents (h : SameWay fs other path) :
    (other.makeParents path).error? = none ↔ (fs.makeParents path).error? = none := by
  rw [FileSystem.error?_makeParents hother hotherTree, FileSystem.error?_makeParents hfs htree,
    h.workingDir, h.clear _ List.prefix_rfl]

/-- The same stands at the end of the path, once the directories that lead there are made. -/
theorem SameWay.get?_makeParents (h : SameWay fs other path)
    (hmake : fs.makeParents path = ⟨none, made⟩) (hmake' : other.makeParents path = ⟨none, made'⟩) :
    made'.get? (path.spelled fs.workingDir) = made.get? (path.spelled fs.workingDir) := by
  have hadds := addsDirectories_of_makeParents hmake
  have hadds' := addsDirectories_of_makeParents hmake'
  obtain ⟨hallows, -⟩ := (FileSystem.error?_makeParents hfs htree path).mp (by rw [hmake])
  have hget := FileSystem.get?_makeParents hfs htree path (path.spelled fs.workingDir)
  have hget' := FileSystem.get?_makeParents hother hotherTree path (path.spelled fs.workingDir)
  rw [hmake] at hget
  rw [hmake'] at hget'
  apply get?_eq_of_iff (hadds.linkFree hfs) (hadds'.linkFree hother)
  · rw [hget, hget', h.directory hallows]
  · intro bytes
    rw [hadds.get?_file, hadds'.get?_file, h.file]

/-- What a write meets on its way decides how it ends, where what both attempts have left is kept in
one file system. -/
theorem SameWay.error?_overwrite (h : SameWay fs other path) (hlinks : later.LinkFree)
    (hlater : later.IsTree) (text : Text)
    (hretains : (fs.overwrite path text).fs.Retains later)
    (hretains' : (other.overwrite path text).fs.Retains later) :
    (other.overwrite path text).error?.map (causeAt path) =
      (fs.overwrite path text).error?.map (causeAt path) := by
  by_cases hwritable : fs.Writable path
  · rw [(error?_overwrite_iff hfs htree path text).mpr hwritable,
      (error?_overwrite_iff hother hotherTree path text).mpr (h.writable_iff.mpr hwritable)]
  · rcases hwrite : fs.overwrite path text with ⟨_ | e, left⟩
    · exact absurd ((error?_overwrite_iff hfs htree path text).mp (by rw [hwrite])) hwritable
    rcases hwrite' : other.overwrite path text with ⟨_ | e', left'⟩
    · have hwritable' := (error?_overwrite_iff hother hotherTree path text).mp (by rw [hwrite'])
      exact absurd (h.writable_iff.mp hwritable') hwritable
    rw [hwrite] at hretains
    rw [hwrite'] at hretains'
    rw [Option.map_some, Option.map_some, Option.some.injEq]
    have hparents := h.error?_makeParents hfs htree hother hotherTree
    rcases overwrite_some_cases hwrite with hmake | ⟨hmake, hput⟩ <;>
      rcases overwrite_some_cases hwrite' with hmake' | ⟨hmake', hput'⟩
    · exact causeAt_makeParents hfs htree hother hotherTree hlinks hlater hmake hmake' hretains
        hretains'
    · simp [hmake, hmake'] at hparents
    · simp [hmake, hmake'] at hparents
    · have hplace := h.get?_makeParents hfs htree hother hotherTree hmake hmake'
      have hsame := writeBytes_of_get? hfs htree hother hotherTree h.workingDir hmake hmake' hplace
        hput
      rw [hput', Except.error.injEq] at hsame
      rw [hsame]

end Trees

end Errors

section Overwrite

theorem retains_overwrite (hfs : fs.LinkFree) (path : Path) (text : Text) :
    fs.Retains (fs.overwrite path text).fs :=
  retains_attempt hfs [(path, text)]

/-- A write leaves the same entries where there were the same ones before. -/
theorem SameEntries.overwrite (h : fs.SameEntries other) (hfs : fs.LinkFree) (htree : fs.IsTree)
    (path : Path) (text : Text) :
    (fs.overwrite path text).fs.SameEntries (other.overwrite path text).fs := by
  have hother := h.linkFree hfs
  have hotherTree := h.isTree htree
  have hway := h.sameWay path
  apply sameEntries_of_iff (linkFree_overwrite hfs path text) (linkFree_overwrite hother path text)
  · rw [(retains_overwrite hother path text).workingDir,
      (retains_overwrite hfs path text).workingDir, h.workingDir]
  · intro location
    rw [get?_overwrite_directory hother hotherTree, get?_overwrite_directory hfs htree, h.entry,
      hway.opens_iff]
  · intro location bytes
    rw [get?_overwrite_file hother hotherTree, get?_overwrite_file hfs htree, h.entry,
      hway.writable_iff, h.workingDir]

/-- A write ends alike where there were the same entries before. -/
theorem SameEntries.error?_overwrite (h : fs.SameEntries other) (hfs : fs.LinkFree)
    (htree : fs.IsTree) (path : Path) (text : Text) :
    (other.overwrite path text).error?.map (causeAt path) =
      (fs.overwrite path text).error?.map (causeAt path) := by
  have hkept := (h.overwrite hfs htree path text).symm.retains
  exact (h.sameWay path).error?_overwrite hfs htree (h.linkFree hfs) (h.isTree htree)
    (linkFree_overwrite hfs path text) (htree.overwrite path text) text (Retains.refl _) hkept

end Overwrite

section Apart

variable {workingDir : Location} {p q : Path}

/-- The way of the path does not lead over the place of the other one, unless the way of the other
one leads there too. -/
def Avoids (workingDir : Location) (path other : Path) : Prop :=
  ∀ front, front <+: path.moves.dropLast → front <+: other.moves.dropLast ∨
    front.foldl followComponent (path.start workingDir) ≠ other.spelled workingDir

/-- Two paths from one start lead to different places, and neither leads over the place of the
other one, unless both ways do. -/
structure Apart (workingDir : Location) (path other : Path) : Prop where
  start : path.start workingDir = other.start workingDir
  spelled : path.spelled workingDir ≠ other.spelled workingDir
  avoids : Avoids workingDir path other
  avoided : Avoids workingDir other path

theorem Apart.symm (h : Apart workingDir p q) : Apart workingDir q p :=
  ⟨h.start.symm, h.spelled.symm, h.avoided, h.avoids⟩

/-- What the other path opens at the place of a path is on the way that both share. -/
theorem Apart.opens (h : Apart fs.workingDir p q) (hallows : AllowsParents p)
    (hopens : fs.Opens q (p.spelled fs.workingDir)) : fs.Opens p (p.spelled fs.workingDir) := by
  obtain ⟨-, front, hfront, hclear, hplace⟩ := hopens
  refine ⟨hallows, front, ?_, h.start ▸ hclear, h.start ▸ hplace⟩
  exact (h.avoided front hfront).resolve_right fun hne => hne hplace.symm

variable (hfs : fs.LinkFree) (htree : fs.IsTree)
include hfs htree

/-- The file that a write leaves is not on the clear way of the other path. -/
theorem Apart.clear_iff (h : Apart fs.workingDir p q) (text : Text) {front : List Component}
    (hfront : front <+: p.moves.dropLast) :
    (fs.overwrite q text).fs.Clear (p.start fs.workingDir) front ↔
      fs.Clear (p.start fs.workingDir) front := by
  constructor
  · rintro ⟨hfits, hway⟩
    refine ⟨hfits, fun first hfirst bytes hfile => ?_⟩
    obtain ⟨held, hheld⟩ := (retains_overwrite hfs q text).file _ _ hfile
    exact hway first hfirst held hheld
  · intro hclear
    refine ⟨hclear.1, fun first hfirst bytes hfile => ?_⟩
    rcases (get?_overwrite_file hfs htree q text _ bytes).mp hfile with
      ⟨hwritable, hplace, -⟩ | ⟨-, hfile⟩
    · -- The place would be one of the directories that lead to the file.
      have hshared := (h.avoids first (hfirst.trans hfront)).resolve_right fun hne => hne hplace
      apply hwritable.vacant
      refine Or.inr ⟨hwritable.allows, first, hshared, ?_, ?_⟩
      · exact h.start ▸ hclear.of_isPrefix hfirst
      · exact h.start ▸ hplace.symm
    · exact hclear.2 first hfirst bytes hfile

/-- A write changes nothing for the way of a path that is apart. -/
theorem Apart.sameWay (h : Apart fs.workingDir p q) (text : Text) :
    SameWay fs (fs.overwrite q text).fs p := by
  have hdir := (retains_overwrite hfs q text).workingDir
  have hclear : ∀ front, front <+: p.moves.dropLast → _ := fun front hfront =>
    h.clear_iff hfs htree text hfront
  have hopens : ∀ place, (fs.overwrite q text).fs.Opens p place ↔ fs.Opens p place := by
    intro place
    rw [Opens, Opens, hdir]
    exact and_congr_right fun _ => exists_congr fun front => and_congr_right fun hfront => by
      rw [hclear front hfront]
  refine ⟨hdir, hclear, fun hallows => ?_, fun bytes => ?_⟩
  · rw [get?_overwrite_directory hfs htree, hopens]
    constructor
    · rintro ((hget | hother) | hown)
      · exact Or.inl hget
      · exact Or.inr (h.opens hallows hother)
      · exact Or.inr hown
    · exact Or.imp_left Or.inl
  · rw [get?_overwrite_file hfs htree]
    simp [h.spelled]

/-- Writes to paths that are apart leave the same entries in either order. -/
theorem Apart.overwrite_comm (h : Apart fs.workingDir p q) (text others : Text) :
    ((fs.overwrite p text).fs.overwrite q others).fs.SameEntries
      ((fs.overwrite q others).fs.overwrite p text).fs := by
  have hp := linkFree_overwrite hfs p text
  have hq := linkFree_overwrite hfs q others
  have hpTree := htree.overwrite p text
  have hqTree := htree.overwrite q others
  have hdirP := (retains_overwrite hfs p text).workingDir
  have hdirQ := (retains_overwrite hfs q others).workingDir
  have hwayP := h.sameWay hfs htree others
  have hwayQ := h.symm.sameWay hfs htree text
  apply sameEntries_of_iff (linkFree_overwrite hp q others) (linkFree_overwrite hq p text)
  · rw [(retains_overwrite hp q others).workingDir, (retains_overwrite hq p text).workingDir,
      hdirP, hdirQ]
  · intro location
    rw [get?_overwrite_directory hp hpTree, get?_overwrite_directory hq hqTree,
      get?_overwrite_directory hfs htree, get?_overwrite_directory hfs htree, hwayP.opens_iff,
      hwayQ.opens_iff, or_right_comm]
  · intro location bytes
    have hne := h.spelled
    rw [get?_overwrite_file hp hpTree, get?_overwrite_file hq hqTree,
      get?_overwrite_file hfs htree, get?_overwrite_file hfs htree, hwayP.writable_iff,
      hwayQ.writable_iff, hdirP, hdirQ]
    grind

/-- A write ends alike before and after a write to a path that is apart. -/
theorem Apart.error?_overwrite (h : Apart fs.workingDir p q) (text others : Text) :
    ((fs.overwrite q others).fs.overwrite p text).error?.map (causeAt p) =
      (fs.overwrite p text).error?.map (causeAt p) := by
  have hp := linkFree_overwrite hfs p text
  have hq := linkFree_overwrite hfs q others
  have hqTree := htree.overwrite q others
  have hsame := h.overwrite_comm hfs htree text others
  exact (h.sameWay hfs htree others).error?_overwrite hfs htree hq hqTree
    (linkFree_overwrite hq p text) (hqTree.overwrite p text) text
    ((retains_overwrite hp q others).trans hsame.retains) (Retains.refl _)

end Apart

section Join

variable {workingDir : Location} {a b : Path}

/-- Behind a common path, the way of names avoids each place that does not lie above its end. -/
theorem avoids_join (target : Path) (ha : a.isContained = true) (hb : b.isContained = true)
    (h : ¬(target.join b).spelled workingDir <+: (target.join a).spelled workingDir) :
    Avoids workingDir (target.join a) (target.join b) := by
  obtain ⟨hrelativeA, hparentA⟩ := (isContained_iff a).mp ha
  obtain ⟨hrelativeB, -⟩ := (isContained_iff b).mp hb
  obtain ⟨names, hnames, -⟩ := moves_eq_map_normal hparentA
  have hspelled : (target.join a).spelled workingDir = target.spelled workingDir ++ names := by
    rw [spelled_join _ _ hrelativeA, hnames, foldl_followComponent_normal]
  have hmoves : b.moves ≠ [] := by
    intro hnil
    rw [spelled_join _ _ hrelativeB, hnil, hspelled] at h
    exact h (List.prefix_append _ _)
  intro front hfront
  have hway := hfront.trans (List.dropLast_prefix _)
  rw [moves_join _ hrelativeA, hnames] at hway
  rw [moves_join _ hrelativeB, List.dropLast_append_of_ne_nil hmoves]
  rcases List.prefix_or_prefix_of_prefix hway (List.prefix_append _ _) with hshort | ⟨more, rfl⟩
  · exact Or.inl (hshort.trans (List.prefix_append _ _))
  · -- Behind the common path the way leads to a leading part of the other place.
    rw [List.prefix_append_right_inj, List.prefix_iff_eq_take, ← List.map_take] at hway
    refine Or.inr fun hend => h ?_
    rw [start_join _ _ hrelativeA, List.foldl_append, hway, foldl_followComponent_normal] at hend
    rw [← hend, hspelled]
    exact (List.prefix_append_right_inj _).mpr (List.take_prefix _ _)

/-- Behind a common path, names are apart when neither place is the other one or below it. -/
theorem apart_join (target : Path) (ha : a.isContained = true) (hb : b.isContained = true)
    (hab : ¬(target.join a).spelled workingDir <+: (target.join b).spelled workingDir)
    (hba : ¬(target.join b).spelled workingDir <+: (target.join a).spelled workingDir) :
    Apart workingDir (target.join a) (target.join b) where
  start := by
    obtain ⟨hrelativeA, -⟩ := (isContained_iff a).mp ha
    obtain ⟨hrelativeB, -⟩ := (isContained_iff b).mp hb
    rw [start_join _ _ hrelativeA, start_join _ _ hrelativeB]
  spelled := fun heq => hab (heq ▸ List.prefix_rfl)
  avoids := avoids_join target ha hb hba
  avoided := avoids_join target hb ha hab

end Join

/-- Nothing is written at the empty path. -/
theorem overwrite_of_nil (fs : FileSystem) (h : path.text = []) (text : Text) :
    fs.overwrite path text = ⟨some .notFound, fs⟩ := by
  obtain ⟨_⟩ := path
  subst h
  rfl

end TreeFold.FileSystem
