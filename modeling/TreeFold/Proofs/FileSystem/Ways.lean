import TreeFold.Proofs.FileSystem.Again

/-!
# What a write comes to

In a tree without links, all that a write does is told by the entries on its way. The way is clear
as far as no file stands on it and no name is too long. Making the directories that lead to an entry
makes those of the clear part of the way, and it succeeds when the way is clear to its end. The text
can be put there when its place is not one of these directories.
-/

namespace TreeFold

open Component TreeFold.Path Text

namespace Path

/-- A path without one above it makes no moves. -/
theorem moves_of_parent?_none {path : Path} (h : path.parent? = none) : path.moves = [] := by
  rcases List.eq_nil_or_concat path.moves with hnil | ⟨front, c, hmoves⟩
  · exact hnil
  · rw [List.concat_eq_append] at hmoves
    have hroot : c ≠ root := (ne_of_mem_moves (hmoves ▸ List.mem_concat_self)).1
    rw [parent?, components_eq, hmoves, ← List.append_assoc, List.getLast?_concat] at h
    cases c <;> simp at h hroot

/-- The path above makes the moves before the last one. -/
theorem moves_eq_dropLast {path above : Path} (h : path.parent? = some above) :
    above.moves = path.moves.dropLast := by
  obtain ⟨-, last, hparts, hroot⟩ := parent?_eq_some h
  rcases List.eq_nil_or_concat path.moves with hnil | ⟨front, c, hmoves⟩
  · have hshorter := (moves_parent? [] h).1
    rw [hnil] at hshorter ⊢
    exact List.prefix_nil.mp hshorter
  · rw [List.concat_eq_append] at hmoves
    rw [components_eq, hmoves, ← List.append_assoc] at hparts
    obtain ⟨hfront, hlast⟩ := List.append_inj' hparts rfl
    obtain rfl := List.singleton_inj.mp hlast
    have hfilter := moves_eq_filter path
    rw [components_eq, hmoves, ← List.append_assoc, hfront, List.filter_append, ← moves_eq_filter]
      at hfilter
    have hc := ne_of_mem_moves (hmoves ▸ List.mem_concat_self : c ∈ path.moves)
    rw [List.filter_cons_of_pos (by simpa using hc), List.filter_nil] at hfilter
    rw [hmoves, List.dropLast_concat, List.append_cancel_right hfilter]

end Path

namespace FileSystem

variable {fs made later : FileSystem} {path : Path} {location place : Location}
  {front moves : List Component}

/-- No name among the moves is too long, and no file stands where they lead on their way. -/
def Clear (fs : FileSystem) (location : Location) (moves : List Component) : Prop :=
  (∀ c ∈ moves, Fits c) ∧ ∀ front, front <+: moves →
    ∀ bytes, fs.get? (front.foldl followComponent location) ≠ some (.file bytes)

/-- The path above the last component can be asked for, when there is one. -/
def AllowsParents (path : Path) : Prop :=
  ∀ above, path.parent? = some above → above.components ≠ [] → checkPath above = .ok ()

/-- The place lies on the clear part of the way to the last component of the path. -/
def Opens (fs : FileSystem) (path : Path) (place : Location) : Prop :=
  AllowsParents path ∧ ∃ front, front <+: path.moves.dropLast ∧
    fs.Clear (path.start fs.workingDir) front ∧
    place = front.foldl followComponent (path.start fs.workingDir)

section Clear

theorem Clear.of_isPrefix (h : fs.Clear location moves) (hfront : front <+: moves) :
    fs.Clear location front :=
  ⟨fun c hc => h.1 c (hfront.subset hc), fun first hfirst => h.2 first (hfirst.trans hfront)⟩

theorem Clear.tail {c : Component} (h : fs.Clear location (c :: moves)) :
    fs.Clear (followComponent location c) moves :=
  ⟨fun d hd => h.1 d (List.mem_cons_of_mem _ hd),
    fun first hfirst => h.2 (c :: first) ((List.prefix_cons_inj c).mpr hfirst)⟩

theorem clear_of_passes (h : fs.Passes location moves) : fs.Clear location moves := by
  refine ⟨h.fits, ?_⟩
  rintro first ⟨rest, rfl⟩ bytes hfile
  rw [(passes_append.mp h).1.target] at hfile
  cases hfile

/-- Only files matter for a clear way. -/
theorem AddsDirectories.clear_iff (h : fs.AddsDirectories made) :
    made.Clear location moves ↔ fs.Clear location moves := by
  simp only [Clear, ne_eq, h.get?_file]

/-- Where nothing is missing, clear moves pass. -/
theorem passes_of_clear (hfs : fs.LinkFree) (hdir : fs.get? location = some .directory)
    (hclear : fs.Clear location front) (hfront : front <+: moves)
    (h : fs.descend location moves ≠ .error .notFound) : fs.Passes location front := by
  induction front generalizing location moves with
  | nil => exact hdir
  | cons c front ih =>
      obtain ⟨rest, rfl⟩ := hfront
      have hfits := hclear.1 c List.mem_cons_self
      rw [List.cons_append, descend_cons hdir, if_pos hfits] at h
      refine ⟨hdir, hfits, ih ?_ hclear.tail (List.prefix_append _ _) h⟩
      cases hget : fs.get? (followComponent location c) with
      | none =>
          have henter : fs.enter (followComponent location c) = .error .notFound := by
            rw [enter, hget]
          exact absurd (descend_of_error henter _) h
      | some entry =>
          cases entry with
          | directory => rfl
          | file bytes =>
              exact absurd hget (hclear.2 [c] ((List.prefix_cons_inj c).mpr List.nil_prefix) bytes)
          | link target => exact absurd hget (hfs _ target)

end Clear

section Parents

/-- A directory that is made for a path stands where its moves lead, and they are clear. -/
theorem clear_of_makeDirectory (hfs : fs.LinkFree) (h : fs.makeDirectory path = .ok made)
    (hnew : made.get? place ≠ fs.get? place) :
    fs.Clear (path.start fs.workingDir) path.moves ∧ place = path.spelled fs.workingDir := by
  have hadds := addsDirectories_of_makeDirectory h
  obtain ⟨-, -, -, -, hleads⟩ := passes_of_makeDirectory hfs h
  rw [Leads, hadds.workingDir] at hleads
  refine ⟨hadds.clear_iff.mp (clear_of_passes hleads), ?_⟩
  obtain ⟨-, before, last, holder, hsplit, hholder, hlast, -, -, rfl⟩ := makeDirectory_ok h
  obtain ⟨-, rfl⟩ := (directoryOf_ok_iff hfs path).mp hholder
  by_contra hne
  apply hnew
  apply get?_put_of_ne fs (by simp)
  rw [spelled, pieces_of_splitLast? hsplit, hlast, Option.toList_some, List.foldl_concat,
    followComponent] at hne
  exact hne

/-- Where the path above cannot be asked for, nothing is made in any file system. -/
theorem exists_makeParents_of_not (h : ¬AllowsParents path) :
    ∃ e, ∀ fs : FileSystem, fs.LinkFree → fs.makeParents path = ⟨some e, fs⟩ := by
  simp only [AllowsParents, not_forall] at h
  obtain ⟨above, habove, hparts, hcheck⟩ := h
  obtain ⟨hplain, -⟩ := parent?_eq_some habove
  have htext : above.text ≠ [] := by
    rw [hplain]
    exact ofComponents_ne_nil hparts (areComponents above)
  cases hresult : checkPath above with
  | ok u => exact absurd hresult hcheck
  | error e =>
      refine ⟨e, fun fs hfs => ?_⟩
      obtain ⟨c, rest, hreverse⟩ :=
        List.exists_cons_of_ne_nil (List.reverse_ne_nil_iff.mpr hparts)
      simp only [makeParents, habove, makeDirectories, hreverse]
      exact makeDirectoriesFrom_of_checkPath hfs htext hresult c rest

variable (hfs : fs.LinkFree) (htree : fs.IsTree)
include hfs htree

/-- Making the directories of a plainly spelled path fails where something is in the way. -/
theorem exists_blocks_of_makeDirectories {above : Path} {e : Error} {left : FileSystem}
    (hplain : above = ofComponents above.components) (hcheck : checkPath above = .ok ())
    (h : fs.makeDirectories above = ⟨some e, left⟩) :
    ∃ cause, left.Blocks above cause ∧ Reports cause e := by
  obtain ⟨parts, hparts⟩ : ∃ parts, above.components = parts.reverse :=
    ⟨above.components.reverse, (List.reverse_reverse _).symm⟩
  have hcomponents := areComponents above
  rw [hparts] at hplain hcomponents
  rw [makeDirectories, hparts, List.reverse_reverse, hplain] at h
  rw [hplain] at hcheck ⊢
  obtain ⟨cause, hblocks, hreports, -⟩ :=
    exists_blocks_of_makeDirectoriesFrom hfs htree hcomponents hcheck h
  exact ⟨cause, hblocks, hreports⟩

/-- The way is there once its directories were made, or it is blocked, and this is reported. -/
theorem descend_makeParents (hallows : AllowsParents path) :
    (∃ made reached, fs.makeParents path = ⟨none, made⟩ ∧
        made.descend (path.start fs.workingDir) path.moves.dropLast = .ok reached) ∨
      ∃ e left cause, fs.makeParents path = ⟨some e, left⟩ ∧ cause ≠ .notFound ∧
        left.descend (path.start fs.workingDir) path.moves.dropLast = .error cause ∧
        Reports cause e := by
  cases habove : path.parent? with
  | none =>
      refine Or.inl ⟨fs, path.start fs.workingDir, ?_, ?_⟩
      · simp only [makeParents, habove]
      · rw [moves_of_parent?_none habove]
        exact enter_of_directory (htree.get?_start path)
  | some above =>
      obtain ⟨hplain, -⟩ := parent?_eq_some habove
      have hstart := (moves_parent? fs.workingDir habove).2
      rw [← moves_eq_dropLast habove, ← hstart]
      simp only [makeParents, habove]
      by_cases hparts : above.components = []
      · refine Or.inl ⟨fs, above.start fs.workingDir, by rw [makeDirectories, hparts]; rfl, ?_⟩
        rw [moves_eq_filter, hparts]
        exact enter_of_directory (htree.get?_start above)
      · have hadds := addsDirectories_makeDirectories fs above
        rcases hmake : fs.makeDirectories above with ⟨_ | e, left⟩
        · rw [hmake] at hadds
          obtain ⟨-, hleads⟩ := leads_of_makeDirectoriesFrom hfs (by simpa using hparts) hmake
          obtain ⟨reached, hreached⟩ := leads_iff_descend.mp hleads
          rw [hadds.workingDir] at hreached
          exact Or.inl ⟨left, reached, rfl, hreached⟩
        · rw [hmake] at hadds
          obtain ⟨cause, ⟨hcause, hdescend⟩, hreports⟩ :=
            exists_blocks_of_makeDirectories hfs htree hplain (hallows above habove hparts) hmake
          rw [hadds.workingDir] at hdescend
          exact Or.inr ⟨e, left, cause, rfl, hcause, hdescend, hreports⟩

/-- Making the directories that lead to an entry succeeds where the way is clear. -/
theorem error?_makeParents (path : Path) :
    (fs.makeParents path).error? = none ↔
      AllowsParents path ∧ fs.Clear (path.start fs.workingDir) path.moves.dropLast := by
  by_cases hallows : AllowsParents path
  · have hadds := addsDirectories_makeParents fs path
    rcases descend_makeParents hfs htree hallows with
      ⟨made, reached, hmake, hdescend⟩ | ⟨e, left, cause, hmake, hcause, hdescend, -⟩
    · rw [hmake] at hadds
      have hclear := clear_of_passes (descend_ok_iff.mp hdescend).1
      exact iff_of_true (by rw [hmake]) ⟨hallows, hadds.clear_iff.mp hclear⟩
    · rw [hmake] at hadds
      apply iff_of_false (by rw [hmake]; simp)
      rintro ⟨-, hclear⟩
      have hdir := hadds.toExtends.keeps _ _ (htree.get?_start path)
      have hpasses := passes_of_clear (hadds.linkFree hfs) hdir (hadds.clear_iff.mpr hclear)
        List.prefix_rfl (by rw [hdescend]; simpa using hcause)
      rw [descend_ok_iff.mpr ⟨hpasses, rfl⟩] at hdescend
      cases hdescend
  · obtain ⟨e, hmake⟩ := exists_makeParents_of_not hallows
    rw [hmake fs hfs]
    simp [hallows]

/-- The way is there once its directories were made. -/
theorem exists_descend_of_makeParents (h : fs.makeParents path = ⟨none, made⟩) :
    ∃ reached, made.descend (path.start fs.workingDir) path.moves.dropLast = .ok reached := by
  obtain ⟨hallows, -⟩ := (error?_makeParents hfs htree path).mp (by rw [h])
  rcases descend_makeParents hfs htree hallows with
    ⟨found, reached, hmake, hdescend⟩ | ⟨e, left, cause, hmake, -⟩
  · rw [h] at hmake
    cases hmake
    exact ⟨reached, hdescend⟩
  · rw [h] at hmake
    cases hmake

/-- The directories that lead to an entry are those of the clear part of the way. -/
theorem get?_makeParents (path : Path) (place : Location) :
    (fs.makeParents path).fs.get? place = some .directory ↔
      fs.get? place = some .directory ∨ fs.Opens path place := by
  have hadds := addsDirectories_makeParents fs path
  by_cases hallows : AllowsParents path
  · constructor
    · intro hget
      rcases hadds.entry place with hsame | ⟨hnone, -⟩
      · exact Or.inl (hsame ▸ hget)
      · -- What is new was made for a path that leads to the entry.
        right
        have hnew : (fs.makeParents path).fs.get? place ≠ fs.get? place := by
          rw [hget, hnone]
          simp
        simp only [makeParents] at hnew
        split at hnew
        · rename_i above habove
          obtain ⟨front, now, made, hleading, hne, hbefore, hmake, hmade⟩ :=
            makesAt_of_makeDirectoriesFrom (List.reverse_reverse _).symm hnew
          obtain ⟨hclear, hplace⟩ := clear_of_makeDirectory (hbefore.linkFree hfs) hmake hmade
          have hstart : front.start now.workingDir = path.start fs.workingDir := by
            rw [hbefore.workingDir, start_of_leading _ hleading hne]
            exact (moves_parent? fs.workingDir habove).2
          rw [spelled, hstart] at hplace
          rw [hstart, hbefore.clear_iff] at hclear
          exact ⟨hallows, front.moves, moves_eq_dropLast habove ▸ moves_of_leading hleading,
            hclear, hplace⟩
        · exact absurd rfl hnew
    · rintro (hget | ⟨-, front, hfront, hclear, rfl⟩)
      · exact hadds.toExtends.keeps _ _ hget
      · have hdir := hadds.toExtends.keeps _ _ (htree.get?_start path)
        refine (passes_of_clear (hadds.linkFree hfs) hdir (hadds.clear_iff.mpr hclear) hfront
          ?_).target
        rcases descend_makeParents hfs htree hallows with
          ⟨made, reached, hmake, hdescend⟩ | ⟨e, left, cause, hmake, hcause, hdescend, -⟩
        · rw [hmake, hdescend]
          simp
        · rw [hmake, hdescend]
          simpa using hcause
  · obtain ⟨e, hmake⟩ := exists_makeParents_of_not hallows
    rw [hmake fs hfs]
    simp [Opens, hallows]

end Parents

/-- The path ends in the name of an entry, which is short enough, and can be asked for. -/
structure Nameable (path : Path) : Prop where
  named : ∃ (dir : Path) (name : Name), IsEntryName name ∧ path = dir.child name
  check : checkPath path = .ok ()
  fits : ∀ c ∈ path.moves.getLast?, Fits c

/-- A text can be put where the path leads to, once the directories are made that lead there. -/
structure Writable (fs : FileSystem) (path : Path) : Prop where
  nameable : Nameable path
  allows : AllowsParents path
  clear : fs.Clear (path.start fs.workingDir) path.moves.dropLast
  vacant : ¬(fs.get? (path.spelled fs.workingDir) = some .directory ∨
    fs.Opens path (path.spelled fs.workingDir))

section Overwrite

variable (hfs : fs.LinkFree) (htree : fs.IsTree)
include hfs htree

/-- Behind directories that are there, a text can be put where no directory stands. -/
theorem isOk_writeBytes_iff (hmake : fs.makeParents path = ⟨none, made⟩) (bytes : List UInt8) :
    (∃ changed, made.writeBytes path bytes = .ok changed) ↔
      Nameable path ∧ made.get? (path.spelled fs.workingDir) ≠ some .directory := by
  have hadds := addsDirectories_of_makeParents hmake
  by_cases hnamed : ∃ (dir : Path) (name : Name), IsEntryName name ∧ path = dir.child name
  · obtain ⟨dir, name, hname, rfl⟩ := hnamed
    have hleads := leads_of_makeParents_child hfs htree hname hmake
    have hlast : (dir.child name).moves.getLast? = some (.normal name) := by
      rw [moves_child dir hname, List.getLast?_concat]
    rw [writeBytes_of_leads (hadds.linkFree hfs) hname hleads, spelled_child_name _ _ hname,
      hadds.workingDir]
    cases hcheck : checkPath (dir.child name) with
    | error e =>
        apply iff_of_false (by simp)
        rintro ⟨⟨-, hok, -⟩, -⟩
        rw [hok] at hcheck
        cases hcheck
    | ok u =>
        by_cases hlong : Text.byteLength name > maxNameLength
        · simp only [hlong, if_true]
          apply iff_of_false (by simp)
          rintro ⟨⟨-, -, hfits⟩, -⟩
          exact Nat.not_le.mpr hlong (hfits _ hlast)
        · simp only [hlong, if_false]
          have hnameable : Nameable (dir.child name) := by
            refine ⟨⟨dir, name, hname, rfl⟩, hcheck, fun c hc => ?_⟩
            obtain rfl := Option.some.inj (hlast.symm.trans hc)
            exact Nat.not_lt.mp hlong
          by_cases hget : made.get? (dir.spelled fs.workingDir ++ [name]) = some .directory
          · simp [hget]
          · simp [hget, hnameable]
  · apply iff_of_false
    · rintro ⟨changed, hwrite⟩
      exact hnamed (exists_child_of_writeBytes hwrite)
    · exact fun h => hnamed h.1.named

/-- A file is replaced exactly when the path is writable. -/
theorem error?_overwrite_iff (path : Path) (text : Text) :
    (fs.overwrite path text).error? = none ↔ fs.Writable path := by
  have hparents := error?_makeParents hfs htree path
  have hplace := get?_makeParents hfs htree path (path.spelled fs.workingDir)
  rw [overwrite_eq]
  rcases hmake : fs.makeParents path with ⟨_ | e, made⟩
  · rw [hmake] at hparents hplace
    obtain ⟨hallows, hclear⟩ := hparents.mp rfl
    have hwrite := isOk_writeBytes_iff hfs htree hmake (encodeUtf8 text)
    simp only [Option.isSome_none, Bool.false_eq_true, if_false]
    rw [ne_eq, hplace] at hwrite
    constructor
    · intro hnone
      cases hresult : made.writeBytes path (encodeUtf8 text) with
      | error e => simp [hresult] at hnone
      | ok changed =>
          obtain ⟨hnameable, hvacant⟩ := hwrite.mp ⟨changed, hresult⟩
          exact ⟨hnameable, hallows, hclear, hvacant⟩
    · intro hwritable
      obtain ⟨changed, hresult⟩ := hwrite.mpr ⟨hwritable.nameable, hwritable.vacant⟩
      rw [hresult]
  · rw [hmake] at hparents
    apply iff_of_false (by simp)
    intro hwritable
    simpa using hparents.mpr ⟨hwritable.allows, hwritable.clear⟩

/-- After a write the directories are those there were and those of the clear part of the way. -/
theorem get?_overwrite_directory (path : Path) (text : Text) (place : Location) :
    (fs.overwrite path text).fs.get? place = some .directory ↔
      fs.get? place = some .directory ∨ fs.Opens path place := by
  have hmakes := get?_makeParents hfs htree path place
  rcases hwrite : fs.overwrite path text with ⟨_ | e, after⟩
  · have hwritable := (error?_overwrite_iff hfs htree path text).mp (by rw [hwrite])
    obtain ⟨made, hmake, -, hnil, hdirectory, rfl⟩ := overwrite_none hfs hwrite
    rw [hmake] at hmakes
    rw [get?_put made hnil, ← hmakes]
    by_cases hsame : place = path.spelled fs.workingDir
    · simp [hsame, hdirectory]
    · rw [if_neg hsame]
  · rw [overwrite_some hwrite]
    exact hmakes

/-- After a write the files are those there were, and the one that is written. -/
theorem get?_overwrite_file (path : Path) (text : Text) (place : Location) (bytes : List UInt8) :
    (fs.overwrite path text).fs.get? place = some (.file bytes) ↔
      (fs.Writable path ∧ place = path.spelled fs.workingDir ∧ bytes = encodeUtf8 text) ∨
        ¬(fs.Writable path ∧ place = path.spelled fs.workingDir) ∧
          fs.get? place = some (.file bytes) := by
  rcases hwrite : fs.overwrite path text with ⟨_ | e, after⟩
  · have hwritable := (error?_overwrite_iff hfs htree path text).mp (by rw [hwrite])
    obtain ⟨made, hmake, -, hnil, -, rfl⟩ := overwrite_none hfs hwrite
    rw [get?_put made hnil]
    by_cases hsame : place = path.spelled fs.workingDir
    · simp [hsame, hwritable, eq_comm]
    · simp [hsame, (addsDirectories_of_makeParents hmake).get?_file]
  · have hnot : ¬fs.Writable path := by
      intro hwritable
      have hnone := (error?_overwrite_iff hfs htree path text).mpr hwritable
      rw [hwrite] at hnone
      cases hnone
    rw [overwrite_some hwrite, (addsDirectories_makeParents fs path).get?_file]
    simp [hnot]

end Overwrite

end FileSystem

end TreeFold
