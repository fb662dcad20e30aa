import TreeFold.Proofs.FileSystem.Directories
import TreeFold.Proofs.FileSystem.Lookup

/-!
# Replacing files

Writing a text makes the directories that lead to the file and puts the file at the location that
its path spells. Below one directory this makes directories the first time only: whether or not the
first write succeeds, later ones leave the directories as they are.

A path through a missing directory names nothing, even when it steps back out of it to a file
that exists. Making the directory uncovers that file.
-/

namespace TreeFold.FileSystem

open Component TreeFold.Path Text

section Names

variable {fs : FileSystem} {path : Path}

/-- What a path names, from the place it leads to. -/
theorem stat_eq (fs : FileSystem) (path : Path) :
    fs.stat path = match fs.place path with
      | .error e => .error e
      | .ok ⟨_, none⟩ => .error .notFound
      | .ok ⟨location, some entry⟩ => .ok (location, entry) := by
  rw [stat]
  cases fs.place path with
  | error e => rfl
  | ok place =>
      obtain ⟨location, entry?⟩ := place
      cases entry? <;> rfl

/-- What a path names stands at its location. -/
theorem get?_of_stat {location : Location} {entry : Entry}
    (h : fs.stat path = .ok (location, entry)) : fs.get? location = some entry := by
  rw [stat_eq] at h
  split at h
  · cases h
  · cases h
  · rename_i hplace
    cases h
    exact get?_of_place hplace

/-- A path that names an entry names what stands in its place later. -/
theorem stat_persists {later : FileSystem} (hlater : fs.Persists later) {location : Location}
    {entry held : Entry} (hstat : fs.stat path = .ok (location, entry))
    (hheld : later.get? location = some held) : later.stat path = .ok (location, held) := by
  rw [stat_eq] at hstat
  split at hstat
  · cases hstat
  · cases hstat
  · rename_i hplace
    cases hstat
    rw [stat_eq, place_persists hlater (Or.inl rfl) hplace, hheld]

theorem stat_ok (hfs : fs.LinkFree) {location : Location} {entry : Entry}
    (h : fs.stat path = .ok (location, entry)) :
    location = path.spelled fs.workingDir ∧ fs.get? location = some entry ∧
      fs.place path = .ok ⟨location, some entry⟩ := by
  rw [stat_eq] at h
  split at h
  · cases h
  · cases h
  · rename_i found held hplace
    cases h
    obtain ⟨hlocation, hentry⟩ := place_spec hfs hplace
    exact ⟨hlocation, hentry.symm, hplace⟩

theorem lexicalLocation?_of_stat (hfs : fs.LinkFree) {location : Location} {entry : Entry}
    (h : fs.stat path = .ok (location, entry)) :
    path.lexicalLocation? fs.workingDir = some location := by
  obtain ⟨hlocation, -, hplace⟩ := stat_ok hfs h
  have htext : path.text ≠ [] := by
    intro htext
    have hcheck : checkPath path = .error .notFound := by
      simp [checkPath, htext]
    rw [place_eq, hcheck] at hplace
    cases hplace
  rw [lexicalLocation?_eq, if_neg htext, hlocation]

theorem isFile_iff (fs : FileSystem) (path : Path) :
    fs.isFile path = true ↔ ∃ location bytes, fs.stat path = .ok (location, .file bytes) := by
  rw [isFile]
  cases fs.stat path with
  | error e => simp
  | ok found =>
      obtain ⟨location, entry⟩ := found
      cases entry <;> simp

theorem isDirectory_iff_stat (fs : FileSystem) (path : Path) :
    fs.isDirectory path = true ↔ ∃ location, fs.stat path = .ok (location, .directory) := by
  rw [isDirectory]
  cases fs.stat path with
  | error e => simp
  | ok found =>
      obtain ⟨location, entry⟩ := found
      cases entry <;> simp

theorem pathExists_of_stat {found : Location × Entry} (h : fs.stat path = .ok found) :
    fs.pathExists path = true := by
  rw [pathExists, h]
  rfl

theorem exists_stat_of_pathExists (h : fs.pathExists path = true) :
    ∃ found, fs.stat path = .ok found := by
  rw [pathExists] at h
  cases hstat : fs.stat path with
  | ok found => exact ⟨found, rfl⟩
  | error e =>
      rw [hstat] at h
      cases h

theorem pathExists_iff :
    fs.pathExists path = true ↔ ∃ location entry, fs.place path = .ok ⟨location, some entry⟩ := by
  rw [pathExists, stat_eq]
  cases fs.place path with
  | error e => simp [Except.isOk, Except.toBool]
  | ok place =>
      obtain ⟨location, entry?⟩ := place
      cases entry? <;> simp [Except.isOk, Except.toBool]

/-- What exists still exists while entries are added. -/
theorem pathExists_persists {later : FileSystem} (hlater : fs.Persists later)
    (h : fs.pathExists path = true) : later.pathExists path = true := by
  obtain ⟨location, entry, hplace⟩ := pathExists_iff.mp h
  obtain ⟨held, hheld⟩ := hlater.exists_get? (get?_of_place hplace)
  refine pathExists_iff.mpr ⟨location, held, ?_⟩
  rw [place_persists hlater (Or.inl rfl) hplace, hheld]

/-- The bytes of a file stand at the location that its path spells. -/
theorem readBytes_ok_iff {bytes : List UInt8} :
    fs.readBytes path = .ok bytes ↔ ∃ location, fs.stat path = .ok (location, .file bytes) := by
  rw [readBytes]
  cases fs.stat path with
  | error e => simp [bind, Except.bind]
  | ok found =>
      obtain ⟨location, entry⟩ := found
      cases entry <;> simp [bind, Except.bind, pure, Except.pure, throw_eq_error]

/-- A path that names an entry names its location where directories and files stay. -/
theorem place_retains {later : FileSystem} (hfs : fs.LinkFree) (hlater : fs.Retains later)
    {location : Location} {entry : Entry} (h : fs.stat path = .ok (location, entry)) :
    later.place path = .ok ⟨location, later.get? location⟩ := by
  obtain ⟨-, -, hplace⟩ := stat_ok hfs h
  exact place_persists (hlater.persists hfs) (Or.inl rfl) hplace

/-- A path that names an entry names it in every file system that extends this one. -/
theorem stat_mono {later : FileSystem} (hfs : fs.LinkFree) (hext : fs.Extends later)
    {found : Location × Entry} (h : fs.stat path = .ok found) : later.stat path = .ok found := by
  obtain ⟨location, entry⟩ := found
  obtain ⟨-, hget, -⟩ := stat_ok hfs h
  rw [stat_eq, place_retains hfs hext.retains h, hext.keeps location entry hget]

/-- A file is a file wherever directories and files stay. -/
theorem stat_file_retains {later : FileSystem} (hfs : fs.LinkFree) (hlater : fs.Retains later)
    {location : Location} {bytes : List UInt8} (h : fs.stat path = .ok (location, .file bytes)) :
    ∃ held, later.get? location = some (.file held) ∧
      later.stat path = .ok (location, .file held) := by
  obtain ⟨-, hget, -⟩ := stat_ok hfs h
  obtain ⟨held, hheld⟩ := hlater.file location bytes hget
  exact ⟨held, hheld, by rw [stat_eq, place_retains hfs hlater h, hheld]⟩

theorem isFile_retains {later : FileSystem} (hfs : fs.LinkFree) (hlater : fs.Retains later)
    (h : fs.isFile path = true) : later.isFile path = true := by
  obtain ⟨location, bytes, hstat⟩ := (isFile_iff fs path).mp h
  obtain ⟨held, -, hkept⟩ := stat_file_retains hfs hlater hstat
  exact (isFile_iff later path).mpr ⟨location, held, hkept⟩

end Names

section Write

variable {fs changed after : FileSystem} {path : Path} {bytes : List UInt8} {text : Text}

/-- Bytes are put at the place that the path leads to. -/
theorem exists_place_of_writeBytes (h : fs.writeBytes path bytes = .ok changed) :
    ∃ place, fs.place path = .ok place ∧ place.entry? ≠ some .directory ∧
      changed = fs.put place.location (.file bytes) := by
  rw [writeBytes] at h
  cases hcheck : checkPath path with
  | error e =>
      rw [hcheck] at h
      cases h
  | ok u =>
      rw [hcheck] at h
      cases hsplit : splitLast? path with
      | none =>
          rw [hsplit] at h
          cases h
      | some found =>
          obtain ⟨before, last⟩ := found
          simp only [hsplit, bind, Except.bind] at h
          split at h
          · cases hholder : fs.directoryOf path before with
            | error e =>
                rw [hholder] at h
                cases h
            | ok holder =>
                rw [hholder] at h
                cases h
          · cases hplace : fs.place path with
            | error e =>
                rw [hplace] at h
                cases h
            | ok place =>
                simp only [hplace] at h
                refine ⟨place, rfl, ?_⟩
                split at h
                · cases h
                · rename_i hdirectory
                  cases h
                  exact ⟨hdirectory, rfl⟩

/-- Whether bytes can be put, and where, does not depend on the bytes. -/
theorem exists_writeBytes_eq (fs : FileSystem) (path : Path) :
    ∃ target : Except Error Location, ∀ bytes,
      fs.writeBytes path bytes = target.map fun location => fs.put location (.file bytes) := by
  simp only [writeBytes]
  cases checkPath path with
  | error e => exact ⟨.error e, fun _ => rfl⟩
  | ok u =>
      cases splitLast? path with
      | none => exact ⟨.error .isDirectory, fun _ => rfl⟩
      | some found =>
          obtain ⟨before, last⟩ := found
          by_cases hdirectory : (path.text.getLast? = some '/' || !isEntryName last) = true
          · simp only [bind, Except.bind, hdirectory, if_true]
            cases fs.directoryOf path before with
            | error e => exact ⟨.error e, fun _ => rfl⟩
            | ok holder => exact ⟨.error .isDirectory, fun _ => rfl⟩
          · simp only [bind, Except.bind, hdirectory]
            cases fs.place path with
            | error e => exact ⟨.error e, fun _ => rfl⟩
            | ok place =>
                obtain ⟨location, entry?⟩ := place
                rcases entry? with _ | (_ | _ | _)
                · exact ⟨.ok location, fun _ => rfl⟩
                · exact ⟨.error .isDirectory, fun _ => rfl⟩
                · exact ⟨.ok location, fun _ => rfl⟩
                · exact ⟨.ok location, fun _ => rfl⟩

/-- Without links, bytes are put at the location that the path spells. -/
theorem writeBytes_ok (hfs : fs.LinkFree) (h : fs.writeBytes path bytes = .ok changed) :
    fs.place path = .ok ⟨path.spelled fs.workingDir, fs.get? (path.spelled fs.workingDir)⟩ ∧
      fs.get? (path.spelled fs.workingDir) ≠ some .directory ∧
      changed = fs.put (path.spelled fs.workingDir) (.file bytes) := by
  obtain ⟨⟨location, entry?⟩, hplace, hdirectory, hchanged⟩ := exists_place_of_writeBytes h
  obtain ⟨hlocation, hentry⟩ := place_spec hfs hplace
  simp only at hlocation hentry hdirectory hchanged
  rw [hlocation] at hplace hentry hchanged
  rw [hentry] at hplace hdirectory
  exact ⟨hplace, hdirectory, hchanged⟩

/-- The location of a file that could be written is not the root. -/
theorem ne_nil_of_writeBytes (hfs : fs.LinkFree) (h : fs.writeBytes path bytes = .ok changed) :
    path.spelled fs.workingDir ≠ [] := by
  obtain ⟨-, hdirectory, -⟩ := writeBytes_ok hfs h
  intro hnil
  rw [hnil] at hdirectory
  exact hdirectory rfl

/-- A text replaces a file after the directories that lead to it were made. -/
theorem overwrite_eq (fs : FileSystem) (path : Path) (text : Text) :
    fs.overwrite path text =
      if (fs.makeParents path).error?.isSome then fs.makeParents path
      else match (fs.makeParents path).fs.writeBytes path (encodeUtf8 text) with
        | .ok changed => ⟨none, changed⟩
        | .error e => ⟨some e, (fs.makeParents path).fs⟩ := by
  rw [overwrite, withParents]
  obtain ⟨error?, made⟩ := fs.makeParents path
  cases error? with
  | none => cases hwrite : made.writeBytes path (encodeUtf8 text) <;> simp [hwrite]
  | some e => rfl

theorem addsDirectories_makeParents (fs : FileSystem) (path : Path) :
    fs.AddsDirectories (fs.makeParents path).fs :=
  makeParents_keeps (fun h hmake => h.trans (addsDirectories_of_makeDirectory hmake))
    (AddsDirectories.refl fs) path

theorem addsDirectories_of_makeParents {made : FileSystem} {error? : Option Error}
    (h : fs.makeParents path = ⟨error?, made⟩) : fs.AddsDirectories made := by
  have hadds := addsDirectories_makeParents fs path
  rw [h] at hadds
  exact hadds

theorem overwrite_some {e : Error} (h : fs.overwrite path text = ⟨some e, after⟩) :
    after = (fs.makeParents path).fs := by
  rw [overwrite_eq] at h
  split at h
  · rw [h]
  · split at h
    · cases h
    · rw [Change.mk.injEq] at h
      exact h.2.symm

/-- Whether a file can be replaced does not depend on the text. -/
theorem error?_overwrite (fs : FileSystem) (path : Path) (text other : Text) :
    (fs.overwrite path text).error? = (fs.overwrite path other).error? := by
  obtain ⟨target, htarget⟩ := exists_writeBytes_eq (fs.makeParents path).fs path
  rw [overwrite_eq, overwrite_eq, htarget, htarget]
  split
  · rfl
  · cases target <;> rfl

/-- What replacing a file does when it succeeds: directories are made, and the text is put at the
location that the path spells. -/
theorem overwrite_none (hfs : fs.LinkFree) (h : fs.overwrite path text = ⟨none, after⟩) :
    ∃ made, fs.makeParents path = ⟨none, made⟩ ∧
      made.place path = .ok ⟨path.spelled fs.workingDir,
        made.get? (path.spelled fs.workingDir)⟩ ∧
      path.spelled fs.workingDir ≠ [] ∧
      made.get? (path.spelled fs.workingDir) ≠ some .directory ∧
      after = made.put (path.spelled fs.workingDir) (.file (encodeUtf8 text)) := by
  rw [overwrite_eq] at h
  rcases hparents : fs.makeParents path with ⟨_ | e, made⟩
  · have hadds := addsDirectories_of_makeParents hparents
    have hmade := hadds.linkFree hfs
    rw [hparents] at h
    cases hwrite : made.writeBytes path (encodeUtf8 text) with
    | error e => simp [hwrite] at h
    | ok changed =>
        simp only [hwrite, Option.isSome_none, Bool.false_eq_true, if_false,
          Change.mk.injEq, true_and] at h
        obtain ⟨hplace, hdirectory, hchanged⟩ := writeBytes_ok hmade hwrite
        have hnil := ne_nil_of_writeBytes hmade hwrite
        have hdir : made.workingDir = fs.workingDir := hadds.workingDir
        rw [hdir] at hplace hdirectory hchanged hnil
        exact ⟨made, rfl, hplace, hnil, hdirectory, h ▸ hchanged⟩
  · rw [hparents] at h
    simp at h

/-- What a text replaces is found after the directories that lead to it were made. -/
theorem exists_place_of_overwrite (h : fs.overwrite path text = ⟨none, after⟩) :
    ∃ place, (fs.makeParents path).fs.place path = .ok place ∧ place.entry? ≠ some .directory ∧
      after = (fs.makeParents path).fs.put place.location (.file (encodeUtf8 text)) := by
  rw [overwrite_eq] at h
  split at h
  · rename_i hfailed
    rw [h] at hfailed
    cases hfailed
  · split at h
    · rename_i hwrite
      cases h
      exact exists_place_of_writeBytes hwrite
    · cases h

/-- Only a path that names something can be written. -/
theorem ne_nil_of_overwrite (h : fs.overwrite path text = ⟨none, after⟩) : path.text ≠ [] := by
  obtain ⟨place, hplace, -, -⟩ := exists_place_of_overwrite h
  intro htext
  have hcheck : checkPath path = .error .notFound := by
    simp [checkPath, htext]
  rw [place_eq, hcheck] at hplace
  cases hplace

end Write

section Below

variable {fs made after : FileSystem} {dir : Path} {name : Name} {text : Text}

/-- Making the directory, in its plain spelling, changes nothing. -/
def Settled (fs : FileSystem) (dir : Path) : Prop :=
  (fs.makeDirectories (ofComponents dir.components)).fs = fs

theorem makeParents_child (fs : FileSystem) (dir : Path) {piece : Text} {c : Component}
    (h : IsPiece piece c) :
    fs.makeParents (dir.child piece) = fs.makeDirectories (ofComponents dir.components) := by
  rw [makeParents, parent?_child dir h]

theorem makeDirectories_ofComponents (fs : FileSystem) (dir : Path) :
    fs.makeDirectories (ofComponents dir.components) =
      fs.makeDirectoriesFrom (ofComponents dir.components.reverse.reverse)
        dir.components.reverse := by
  rw [makeDirectories, components_ofComponents (areComponents dir), List.reverse_reverse]

/-- A directory that is there is settled. -/
theorem settled_of_leads (hfs : fs.LinkFree) (h : fs.Leads dir) : fs.Settled dir := by
  obtain ⟨hmoves, habsolute⟩ := moves_ofComponents dir
  have hplain : fs.Leads (ofComponents dir.components) := (leads_congr hmoves habsolute).mpr h
  rw [Settled, makeDirectories]
  cases hcheck : checkPath (ofComponents dir.components) with
  | ok u => rw [makeDirectoriesFrom_of_leads hfs hcheck hplain]
  | error e =>
      rw [components_ofComponents (areComponents dir)]
      cases hparts : dir.components.reverse with
      | nil => rfl
      | cons c above =>
          have hmake : fs.makeDirectory (ofComponents dir.components) = .error e := by
            rw [makeDirectory, hcheck]
            rfl
          have hne : dir.components ≠ [] := by
            intro hnil
            simp [hnil] at hparts
          have hcause : e ≠ .notFound := by
            rintro rfl
            exact checkPath_ne_notFound (ofComponents_ne_nil hne (areComponents dir)) hcheck
          rw [makeDirectoriesFrom_settle (by simpa [hmake] using hcause), hmake, settle]
          split <;> rfl

/-- Where making the directory succeeded, it is settled. -/
theorem settled_of_makeDirectories (hfs : fs.LinkFree)
    (h : fs.makeDirectories (ofComponents dir.components) = ⟨none, made⟩) : made.Settled dir := by
  by_cases hparts : dir.components = []
  · rw [Settled, hparts]
    rfl
  · have hadds := addsDirectories_makeDirectories fs (ofComponents dir.components)
    rw [h] at hadds
    rw [makeDirectories_ofComponents, List.reverse_reverse] at h
    obtain ⟨-, hleads⟩ := leads_of_makeDirectoriesFrom hfs (by simpa using hparts) h
    obtain ⟨hmoves, habsolute⟩ := moves_ofComponents dir
    exact settled_of_leads (hadds.linkFree hfs) ((leads_congr hmoves habsolute).mp hleads)

/-- Where making the directory failed, it is settled. -/
theorem settled_of_makeDirectories_some (hfs : fs.LinkFree) {e : Error}
    (h : fs.makeDirectories (ofComponents dir.components) = ⟨some e, made⟩) :
    made.Settled dir := by
  rw [makeDirectories_ofComponents] at h
  have hparts : AreComponents dir.components.reverse.reverse := by
    rw [List.reverse_reverse]
    exact areComponents dir
  obtain ⟨e', hretry⟩ := makeDirectoriesFrom_retry hfs hparts h
  rw [Settled, makeDirectories_ofComponents, hretry]

/-- Where a file below the directory was replaced, the directory is there. -/
theorem leads_of_overwrite (hfs : fs.LinkFree) (hname : IsEntryName name)
    (h : fs.overwrite (dir.child name) text = ⟨none, after⟩) : after.Leads dir := by
  obtain ⟨made, hparents, hplace, hnil, hdirectory, rfl⟩ := overwrite_none hfs h
  have hmade := (addsDirectories_of_makeParents hparents).linkFree hfs
  obtain ⟨-, -, hleads⟩ := leads_of_place_child hmade hname hplace
  have hdir := put_workingDir made ((dir.child name).spelled fs.workingDir)
    (.file (encodeUtf8 text))
  apply hleads.mono hdir
  intro l hl
  rw [get?_put_of_ne made hnil]
  · exact hl
  · rintro rfl
    exact hdirectory hl

theorem linkFree_overwrite (hfs : fs.LinkFree) (path : Path) (text : Text) :
    (fs.overwrite path text).fs.LinkFree := by
  have hmade := (addsDirectories_makeParents fs path).linkFree hfs
  rcases h : fs.overwrite path text with ⟨_ | e, after⟩
  · obtain ⟨made, hparents, -, hnil, -, rfl⟩ := overwrite_none hfs h
    rw [hparents] at hmade
    exact hmade.put hnil (by simp)
  · rw [overwrite_some h]
    exact hmade

/-- After one attempt to replace a file below the directory, the directory is settled. -/
theorem settled_overwrite (hfs : fs.LinkFree) (hname : IsEntryName name) (text : Text) :
    (fs.overwrite (dir.child name) text).fs.Settled dir := by
  have hafter := linkFree_overwrite hfs (dir.child name) text
  rcases h : fs.overwrite (dir.child name) text with ⟨_ | e, after⟩
  · rw [h] at hafter
    exact settled_of_leads hafter (leads_of_overwrite hfs hname h)
  · rw [overwrite_some h, makeParents_child fs dir hname]
    rcases hmake : fs.makeDirectories (ofComponents dir.components) with ⟨_ | e, made⟩
    · exact settled_of_makeDirectories hfs hmake
    · exact settled_of_makeDirectories_some hfs hmake

theorem Settled.makeParents (h : fs.Settled dir) (hname : IsEntryName name) :
    (fs.makeParents (dir.child name)).fs = fs := by
  rw [makeParents_child fs dir hname]
  exact h

/-- The path names nothing, but it names a file once the directories on it are made. -/
def uncoversFile (fs : FileSystem) (path : Path) : Bool :=
  !fs.pathExists path && (fs.makeParents path).error?.isNone &&
    (fs.makeParents path).fs.isFile path

theorem Settled.uncoversFile (h : fs.Settled dir) (hname : IsEntryName name) :
    fs.uncoversFile (dir.child name) = false := by
  rw [FileSystem.uncoversFile, h.makeParents hname]
  cases hfile : fs.isFile (dir.child name) with
  | false => simp
  | true =>
      obtain ⟨location, bytes, hstat⟩ := (isFile_iff fs _).mp hfile
      rw [pathExists_of_stat hstat]
      rfl

/-- A text is put where nothing was, unless a file is uncovered. -/
theorem get?_of_overwrite {path : Path} (hfs : fs.LinkFree)
    (hfree : fs.pathExists path = false) (hsafe : fs.uncoversFile path = false)
    (h : fs.overwrite path text = ⟨none, after⟩) :
    (fs.makeParents path).fs.get? (path.spelled fs.workingDir) = none := by
  obtain ⟨made, hparents, hplace, -, hdirectory, -⟩ := overwrite_none hfs h
  have hmade := (addsDirectories_of_makeParents hparents).linkFree hfs
  rw [hparents]
  rw [FileSystem.uncoversFile, hparents, hfree] at hsafe
  cases hget : made.get? (path.spelled fs.workingDir) with
  | none => rfl
  | some entry =>
      cases entry with
      | directory => exact absurd hget hdirectory
      | link target => exact absurd hget (hmade _ target)
      | file bytes =>
          have hstat : made.stat path = .ok (path.spelled fs.workingDir, .file bytes) := by
            rw [stat_eq, hplace, hget]
          have hfile := (isFile_iff made path).mpr ⟨_, _, hstat⟩
          simp [hfile] at hsafe

/-- Behind a directory, bytes are put at the place that the path leads to. -/
theorem writeBytes_child_eq (fs : FileSystem) (hname : IsEntryName name)
    (hcheck : checkPath (dir.child name) = .ok ()) (bytes : List UInt8) :
    fs.writeBytes (dir.child name) bytes =
      match fs.place (dir.child name) with
      | .error e => .error e
      | .ok ⟨location, entry?⟩ =>
        if entry? = some .directory then .error .isDirectory
        else .ok (fs.put location (.file bytes)) := by
  obtain ⟨before, hsplit, -⟩ := splitLast?_child dir hname
  have hentry : isEntryName name = true := isEntryName_iff.mpr hname.1
  have hslash : (dir.child name).text.getLast? ≠ some '/' := getLast?_child dir hname
  rw [writeBytes, hcheck]
  simp only [hsplit, bind, Except.bind, hslash, hentry, decide_false, Bool.not_true,
    Bool.or_self, Bool.false_eq_true, if_false]
  cases fs.place (dir.child name) with
  | error e => rfl
  | ok place =>
      obtain ⟨location, entry?⟩ := place
      rcases entry? with _ | (_ | _ | _) <;> rfl

theorem writeBytes_child (hname : IsEntryName name) {place : Place} {bytes : List UInt8}
    (hplace : fs.place (dir.child name) = .ok place) (h : place.entry? ≠ some .directory) :
    fs.writeBytes (dir.child name) bytes = .ok (fs.put place.location (.file bytes)) := by
  have hcheck : checkPath (dir.child name) = .ok () := by
    rw [place_eq] at hplace
    split at hplace
    · cases hplace
    · rename_i u hcheck
      exact hcheck
  rw [writeBytes_child_eq fs hname hcheck, hplace]
  exact if_neg h

/-- An uncovered file is replaced. -/
theorem overwrite_of_uncoversFile (hfs : fs.LinkFree) (hname : IsEntryName name)
    (h : fs.uncoversFile (dir.child name) = true) (text : Text) :
    ∃ held made, fs.get? ((dir.child name).spelled fs.workingDir) = some (.file held) ∧
      fs.makeParents (dir.child name) = ⟨none, made⟩ ∧
      fs.overwrite (dir.child name) text =
        ⟨none, made.put ((dir.child name).spelled fs.workingDir) (.file (encodeUtf8 text))⟩ := by
  rw [FileSystem.uncoversFile, Bool.and_eq_true, Bool.and_eq_true] at h
  obtain ⟨⟨-, hnone⟩, hfile⟩ := h
  rcases hparents : fs.makeParents (dir.child name) with ⟨_ | e, made⟩
  · have hadds := addsDirectories_of_makeParents hparents
    rw [hparents] at hfile
    obtain ⟨location, held, hstat⟩ := (isFile_iff made _).mp hfile
    obtain ⟨hlocation, hget, hplace⟩ := stat_ok (hadds.linkFree hfs) hstat
    rw [hadds.workingDir] at hlocation
    rw [hlocation] at hget hplace
    refine ⟨held, made, hadds.get?_file.mp hget, rfl, ?_⟩
    rw [overwrite_eq, hparents]
    simp only [Option.isSome_none, Bool.false_eq_true, if_false,
      writeBytes_child hname hplace (by simp)]
  · simp [hparents] at hnone

end Below

end TreeFold.FileSystem
