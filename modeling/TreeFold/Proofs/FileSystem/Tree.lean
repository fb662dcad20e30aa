import TreeFold.Proofs.FileSystem.Overwrite
import TreeFold.Proofs.Path.Relative

/-!
# File systems as trees

In a tree every entry stands in a directory, the working directory is one, and all names are names
of entries. A path to a file in a tree ends in the name of the file. Making directories and putting
entries where no directory stands turns trees into trees.
-/

namespace TreeFold.FileSystem

open Component TreeFold.Path

/-- Every entry stands in a directory under the name of an entry. -/
structure IsTree (fs : FileSystem) : Prop where
  parent : ∀ location name entry, fs.get? (location ++ [name]) = some entry →
    fs.get? location = some .directory
  workingDir : fs.get? fs.workingDir = some .directory
  isEntryName : ∀ location entry, fs.get? location = some entry →
    ∀ name ∈ location, IsEntryName name

variable {fs : FileSystem} {path : Path}

/-- Whether a file system is a tree can be told from its list of entries. -/
theorem isTree_of_entries
    (hentries : ∀ entry ∈ fs.entries, fs.get? entry.1.dropLast = some .directory ∧
      ∀ name ∈ entry.1, IsEntryName name)
    (hdir : fs.get? fs.workingDir = some .directory) : fs.IsTree := by
  constructor
  · intro location name entry hget
    have hmem := mem_entries_of_get? (by simp) hget
    have hparent := (hentries _ hmem).1
    rwa [List.dropLast_concat] at hparent
  · exact hdir
  · intro location entry hget name hname
    have hmem := mem_entries_of_get? (List.ne_nil_of_mem hname) hget
    exact (hentries _ hmem).2 name hname

/-- What leads from a location to an entry are names. -/
theorem IsTree.isEntryName_behind (h : fs.IsTree) {location : Location} {names : List Name}
    {entry : Entry} (hget : fs.get? (location ++ names) = some entry) :
    ∀ name ∈ names, IsEntryName name := fun name hname =>
  h.isEntryName _ _ hget name (List.mem_append_right _ hname)

/-- A path starts from a directory. -/
theorem IsTree.get?_start (h : fs.IsTree) (path : Path) :
    fs.get? (path.start fs.workingDir) = some .directory := by
  rw [Path.start]
  split
  · rfl
  · exact h.workingDir

/-- What lies above a directory is a directory. -/
theorem IsTree.get?_dropLast (h : fs.IsTree) {location : Location}
    (hget : fs.get? location = some .directory) :
    fs.get? location.dropLast = some .directory := by
  rcases List.eq_nil_or_concat location with rfl | ⟨above, name, rfl⟩
  · exact hget
  · rw [List.concat_eq_append] at hget
    rw [List.concat_eq_append, List.dropLast_concat]
    exact h.parent above name _ hget

/-- All locations above a directory are directories. -/
theorem IsTree.get?_of_append (h : fs.IsTree) {location : Location} (names : List Name)
    (hget : fs.get? (location ++ names) = some .directory) :
    fs.get? location = some .directory := by
  induction names using List.reverseRecOn with
  | nil => rwa [List.append_nil] at hget
  | append_singleton names name ih =>
      rw [← List.append_assoc] at hget
      exact ih (h.parent _ name _ hget)

/-- Names that are short enough lead through directories to a directory below. -/
theorem IsTree.passes (h : fs.IsTree) {location : Location} {names : List Name}
    (hfits : ∀ c ∈ names.map Component.normal, Fits c)
    (hget : fs.get? (location ++ names) = some .directory) :
    fs.Passes location (names.map .normal) := by
  induction names generalizing location with
  | nil => rwa [List.append_nil] at hget
  | cons name names ih =>
      refine ⟨h.get?_of_append _ hget, hfits _ List.mem_cons_self, ?_⟩
      rw [List.append_cons] at hget
      exact ih (fun c hc => hfits c (List.mem_cons_of_mem _ hc)) hget

/-- A path that does not step up leads through directories when what it spells is one. -/
theorem IsTree.leads (h : fs.IsTree) (hpath : Component.parent ∉ path.components)
    (hfits : ∀ c ∈ path.moves, Fits c)
    (hget : fs.get? (path.spelled fs.workingDir) = some .directory) : fs.Leads path := by
  obtain ⟨names, hnames, -⟩ := moves_eq_map_normal hpath
  rw [spelled, hnames, foldl_followComponent_normal] at hget
  rw [hnames] at hfits
  rw [Leads, hnames]
  exact h.passes hfits hget

/-- A path to a file ends in a name. -/
theorem IsTree.fileName?_of_isFile (h : fs.IsTree) (hfs : fs.LinkFree)
    (hfile : fs.isFile path = true) : ∃ name, path.fileName? = some name := by
  obtain ⟨location, bytes, hstat⟩ := (isFile_iff fs path).mp hfile
  obtain ⟨hlocation, hget, hplace⟩ := stat_ok hfs hstat
  have hstart := h.get?_start path
  rcases List.eq_nil_or_concat path.moves with hnil | ⟨front, c, hmoves⟩
  · rw [hlocation, spelled, hnil, List.foldl_nil, hstart] at hget
    cases hget
  · rw [List.concat_eq_append] at hmoves
    have hlast : path.components.getLast? = some c := by
      rw [components_eq, hmoves, ← List.append_assoc, List.getLast?_concat]
    obtain ⟨piece, hpiece⟩ := exists_isPiece_of_mem_moves (hmoves ▸ List.mem_concat_self :
      c ∈ path.moves)
    rcases (ofPiece?_eq_some hpiece.1).2.2 with rfl | rfl
    · -- Above the directory that the step up leaves there is no file.
      exfalso
      obtain ⟨before, after, hpieces, hbefore, hafter⟩ := List.filterMap_eq_append_iff.mp hmoves
      obtain ⟨skipped, last, rest, rfl, hskipped, -, -⟩ := List.filterMap_eq_cons_iff.mp hafter
      rw [place_eq] at hplace
      split at hplace
      · cases hplace
      · obtain ⟨onLink, hfollow⟩ := exists_follow_eq fs maxLinks
        rw [hfollow, hpieces, ← List.append_assoc] at hplace
        have hpasses := (passes_of_followPieces_append hfs hplace).target
        rw [List.filterMap_append, hbefore, List.filterMap_eq_nil_iff.mpr hskipped,
          List.append_nil] at hpasses
        rw [hlocation, spelled, hmoves, List.foldl_append, List.foldl_cons, List.foldl_nil,
          followComponent, h.get?_dropLast hpasses] at hget
        cases hget
    · exact ⟨piece, by rw [fileName?, hlast]⟩

section Changes

variable {made : FileSystem} {above : Location} {name : Name}

/-- An entry can be put into a directory where no directory stands. -/
theorem IsTree.put (h : fs.IsTree) (habove : fs.get? above = some .directory)
    (hname : IsEntryName name) (hget : fs.get? (above ++ [name]) ≠ some .directory)
    (entry : Entry) : (fs.put (above ++ [name]) entry).IsTree := by
  have hnil : above ++ [name] ≠ [] := by simp
  have hkeep : ∀ location, fs.get? location = some .directory →
      (fs.put (above ++ [name]) entry).get? location = some .directory := by
    intro location hlocation
    rw [get?_put_of_ne fs hnil]
    · exact hlocation
    · rintro rfl
      exact hget hlocation
  constructor
  · intro location other found hfound
    rw [get?_put fs hnil] at hfound
    apply hkeep
    split at hfound
    · rename_i heq
      rw [(List.append_inj' heq rfl).1]
      exact habove
    · exact h.parent location other found hfound
  · exact hkeep _ h.workingDir
  · intro location found hfound
    rw [get?_put fs hnil] at hfound
    split at hfound
    · rename_i heq
      intro other hother
      rw [heq, List.mem_append, List.mem_singleton] at hother
      rcases hother with hother | rfl
      · exact h.isEntryName above _ habove other hother
      · exact hname
    · exact h.isEntryName location found hfound

/-- A file in a tree can be replaced. -/
theorem IsTree.put_file (h : fs.IsTree) {location : Location} {held : List UInt8}
    (hget : fs.get? location = some (.file held)) (bytes : List UInt8) :
    (fs.put location (.file bytes)).IsTree := by
  rcases List.eq_nil_or_concat location with rfl | ⟨above, name, rfl⟩
  · cases hget
  · rw [List.concat_eq_append] at hget ⊢
    apply h.put (h.parent above name _ hget)
    · exact h.isEntryName _ _ hget name (by simp)
    · rw [hget]
      simp

theorem IsTree.makeDirectory (h : fs.IsTree) (hmake : fs.makeDirectory path = .ok made) :
    made.IsTree := by
  obtain ⟨-, before, last, holder, hsplit, hholder, hlast, -, hnone, rfl⟩ := makeDirectory_ok hmake
  apply h.put (get?_of_follow (follow_of_directoryOf hholder))
  · exact isEntryName_of_splitLast? hsplit hlast
  · rw [hnone]
    simp

theorem IsTree.makeDirectoriesFrom (h : fs.IsTree) (path : Path) (parts : List Component) :
    (fs.makeDirectoriesFrom path parts).fs.IsTree :=
  makeDirectoriesFrom_keeps (fun h hmake => h.makeDirectory hmake) h path parts

theorem IsTree.makeParents (h : fs.IsTree) (path : Path) : (fs.makeParents path).fs.IsTree :=
  makeParents_keeps (fun h hmake => h.makeDirectory hmake) h path

end Changes

end TreeFold.FileSystem
