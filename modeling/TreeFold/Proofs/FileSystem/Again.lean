import TreeFold.Proofs.FileSystem.Obstacles
import TreeFold.Proofs.FileSystem.ReadBack

/-!
# Writing again

Where directories and files have stayed since a file was written, writing it again puts the text at
the same location and makes no directory. Where writing has failed, it fails again and changes
nothing.

The cause of a failure may be another one when the path steps up, and when its last piece is a dot:
the directory before the dot was missing at first, and can be there now.
-/

namespace TreeFold.FileSystem

open Component TreeFold.Path Text

/-- The path does not step up, and its last piece is not a dot. -/
def IsDirect (path : Path) : Prop :=
  .parent ∉ path.components ∧ (splitLast? path).map Prod.snd ≠ some ['.']

instance (path : Path) : Decidable (IsDirect path) :=
  inferInstanceAs (Decidable (_ ∧ _))

section Named

variable {fs made later : FileSystem} {path dir : Path} {name : Name} {bytes : List UInt8}

/-- Without a slash at the end, the last piece is the last one of all. -/
theorem pieces_of_getLast? {before : List Text} {last : Text}
    (hsplit : splitLast? path = some (before, last)) (hslash : path.text.getLast? ≠ some '/') :
    path.pieces = before ++ [last] := by
  rw [splitLast?] at hsplit
  rcases List.eq_nil_or_concat path.pieces with hnil | ⟨front, piece, hpieces⟩
  · exact absurd hnil path.pieces_ne_nil
  rw [List.concat_eq_append] at hpieces
  rw [hpieces, List.reverse_append, List.reverse_singleton, List.singleton_append] at hsplit
  by_cases hpiece : piece = []
  · have htext := text_eq_intercalate path
    rw [hpieces, hpiece] at htext
    by_cases hfront : front = []
    · simp [hfront, hpiece] at hsplit
    · rw [intercalate_concat _ hfront, List.append_nil] at htext
      rw [htext, List.getLast?_concat] at hslash
      exact absurd rfl hslash
  · rw [List.dropWhile_cons_of_neg (by simpa using hpiece)] at hsplit
    simp only [List.reverse_reverse, Option.some.injEq, Prod.mk.injEq] at hsplit
    rw [hpieces, hsplit.1, hsplit.2]

/-- A path ends in the name of an entry, or nothing can be written there. -/
theorem named_or_writeBytes (path : Path) :
    (∃ (dir : Path) (name : Name), IsEntryName name ∧ path = dir.child name) ∨
      ∀ (fs : FileSystem) (bytes : List UInt8), fs.writeBytes path bytes =
        match checkPath path with
        | .error e => .error e
        | .ok _ =>
          match splitLast? path with
          | none => .error .isDirectory
          | some (before, _) =>
            match fs.directoryOf path before with
            | .error e => .error e
            | .ok _ => .error .isDirectory := by
  cases hsplit : splitLast? path with
  | none =>
      refine Or.inr fun fs bytes => ?_
      rw [writeBytes]
      cases checkPath path with
      | error e => rfl
      | ok u => rw [hsplit]; rfl
  | some found =>
      obtain ⟨before, last⟩ := found
      by_cases hnamed : (path.text.getLast? = some '/' || !isEntryName last) = true
      · refine Or.inr fun fs bytes => ?_
        rw [writeBytes]
        cases checkPath path with
        | error e => rfl
        | ok u =>
            simp only [hsplit, hnamed, if_true]
            cases fs.directoryOf path before <;> rfl
      · rw [Bool.not_eq_true, Bool.or_eq_false_iff, decide_eq_false_iff_not,
          Bool.not_eq_false'] at hnamed
        have hpieces := pieces_of_getLast? hsplit hnamed.1
        have hname := isEntryName_of_splitLast? hsplit (isEntryName_iff.mp hnamed.2)
        obtain ⟨dir, hpath⟩ := exists_child hname hpieces
        exact Or.inl ⟨dir, last, hname, hpath⟩

/-- Only at the name of an entry can bytes be put. -/
theorem exists_child_of_writeBytes {changed : FileSystem}
    (h : fs.writeBytes path bytes = .ok changed) :
    ∃ (dir : Path) (name : Name), IsEntryName name ∧ path = dir.child name := by
  rcases named_or_writeBytes path with hnamed | hunnamed
  · exact hnamed
  · rw [hunnamed] at h
    repeat (split at h; cases h)
    cases h

theorem exists_child_of_overwrite {after : FileSystem} {text : Text}
    (h : fs.overwrite path text = ⟨none, after⟩) :
    ∃ (dir : Path) (name : Name), IsEntryName name ∧ path = dir.child name := by
  rw [overwrite_eq] at h
  split at h
  · rename_i hfailed
    rw [h] at hfailed
    cases hfailed
  · split at h
    · rename_i hwrite
      exact exists_child_of_writeBytes hwrite
    · cases h

end Named

section Parents

variable {fs made : FileSystem} {path above dir : Path} {name : Name}

/-- Where the directories that lead to an entry were made, they are there. -/
theorem leads_of_makeParents (hfs : fs.LinkFree) (htree : fs.IsTree)
    (hparent : path.parent? = some above) (h : fs.makeParents path = ⟨none, made⟩) :
    made.Leads above := by
  have hadds := addsDirectories_of_makeParents h
  simp only [makeParents, hparent, makeDirectories] at h
  by_cases hparts : above.components = []
  · rw [hparts] at h
    obtain rfl : fs = made := congrArg Change.fs h
    rw [Leads, moves_eq_filter, hparts]
    exact htree.get?_start above
  · exact (leads_of_makeDirectoriesFrom hfs (by simpa using hparts) h).2

theorem leads_of_makeParents_child (hfs : fs.LinkFree) (htree : fs.IsTree)
    (hname : IsEntryName name) (h : fs.makeParents (dir.child name) = ⟨none, made⟩) :
    made.Leads dir := by
  obtain ⟨hmoves, habsolute⟩ := moves_ofComponents dir
  exact (leads_congr hmoves habsolute).mp
    (leads_of_makeParents hfs htree (parent?_child dir hname) h)

/-- A direct path ends in the name that is its last piece. -/
theorem IsDirect.moves_eq (hdirect : IsDirect path) {before : List Text} {last : Text}
    (hsplit : splitLast? path = some (before, last)) :
    path.moves = before.filterMap ofPiece? ++ [.normal last] := by
  obtain ⟨hparent, hdot⟩ := hdirect
  have hmoves := pieces_of_splitLast? hsplit
  obtain ⟨c, hlast⟩ : ∃ c, ofPiece? last = some c := by
    have hdots : last ≠ ['.'] := by
      rintro rfl
      exact hdot (by rw [hsplit]; rfl)
    rw [ofPiece?, if_neg (by simp [ne_nil_of_splitLast? hsplit, hdots])]
    split <;> exact ⟨_, rfl⟩
  rw [hlast, Option.toList_some] at hmoves
  rcases (ofPiece?_eq_some hlast).2.2 with rfl | rfl
  · rw [components_eq, hmoves] at hparent
    simp at hparent
  · exact hmoves

/-- Behind a last name, the moves before it lead to the directory that was made for it. -/
theorem exists_holder_of_makeParents (hfs : fs.LinkFree) (htree : fs.IsTree)
    (hdirect : IsDirect path) {before : List Text} {last : Text}
    (hsplit : splitLast? path = some (before, last)) (h : fs.makeParents path = ⟨none, made⟩) :
    ∃ holder, made.descend (path.start made.workingDir) (before.filterMap ofPiece?) =
      .ok holder := by
  obtain ⟨above, habove, hfront⟩ := exists_parent?_of_moves (hdirect.moves_eq hsplit)
  have hleads := leads_of_makeParents hfs htree habove h
  rw [leads_iff_descend, hfront, (moves_parent? made.workingDir habove).2] at hleads
  exact hleads

end Parents

section WriteBytes

variable {fs made later : FileSystem} {path dir : Path} {name : Name} {bytes others : List UInt8}
  {e : Error}

/-- How bytes are put into a directory that is there. -/
theorem writeBytes_of_leads (hfs : fs.LinkFree) (hname : IsEntryName name) (h : fs.Leads dir)
    (bytes : List UInt8) :
    fs.writeBytes (dir.child name) bytes =
      match checkPath (dir.child name) with
      | .error e => .error e
      | .ok _ =>
        if Text.byteLength name > maxNameLength then .error .nameTooLong
        else if fs.get? (dir.spelled fs.workingDir ++ [name]) = some .directory then
          .error .isDirectory
        else .ok (fs.put (dir.spelled fs.workingDir ++ [name]) (.file bytes)) := by
  cases hcheck : checkPath (dir.child name) with
  | error e =>
      rw [writeBytes, hcheck]
      rfl
  | ok u =>
      rw [writeBytes_child_eq fs hname hcheck]
      by_cases hlong : Text.byteLength name > maxNameLength
      · simp only [place_child_of_long hname hcheck hlong h, hlong, if_true]
      · simp only [place_child hfs hname hcheck (Nat.not_lt.mp hlong) h, hlong, if_false]

/-- Where bytes could not be put, they cannot be put later. -/
theorem writeBytes_again (hfs : fs.LinkFree) (htree : fs.IsTree) (hlinks : later.LinkFree)
    (hlater : later.IsTree) (hmake : fs.makeParents path = ⟨none, made⟩)
    (hretains : made.Retains later) (h : made.writeBytes path bytes = .error e)
    (others : List UInt8) :
    ∃ e', later.writeBytes path others = .error e' ∧ (IsDirect path → e' = e) := by
  have hmade := (addsDirectories_of_makeParents hmake).linkFree hfs
  have hmadeTree := htree.makeParents path
  rw [hmake] at hmadeTree
  rcases named_or_writeBytes path with ⟨dir, name, hname, rfl⟩ | hunnamed
  · have hleads := leads_of_makeParents_child hfs htree hname hmake
    have hkept := hleads.mono hretains.workingDir hretains.directory
    rw [writeBytes_of_leads hmade hname hleads] at h
    rw [writeBytes_of_leads hlinks hname hkept, hretains.workingDir]
    refine ⟨e, ?_, fun _ => rfl⟩
    cases hcheck : checkPath (dir.child name) with
    | error cause => simpa [hcheck] using h
    | ok u =>
        simp only [hcheck] at h ⊢
        by_cases hlong : Text.byteLength name > maxNameLength
        · simpa [hlong] using h
        · by_cases hget : made.get? (dir.spelled made.workingDir ++ [name]) = some .directory
          · simpa [hlong, hget, hretains.directory _ hget] using h
          · simp [hlong, hget] at h
  · rw [hunnamed] at h ⊢
    cases hcheck : checkPath path with
    | error cause => exact ⟨e, by simpa [hcheck] using h, fun _ => rfl⟩
    | ok u =>
        cases hsplit : splitLast? path with
        | none => exact ⟨e, by simpa [hcheck, hsplit] using h, fun _ => rfl⟩
        | some found =>
            obtain ⟨before, last⟩ := found
            simp only [hcheck, hsplit, directoryOf_eq hmade hmadeTree] at h
            simp only [directoryOf_eq hlinks hlater]
            by_cases hmissing : made.descend (path.start made.workingDir)
                (before.filterMap ofPiece?) = .error .notFound
            · have hnot : ¬IsDirect path := by
                intro hdirect
                obtain ⟨holder, hholder⟩ :=
                  exists_holder_of_makeParents hfs htree hdirect hsplit hmake
                rw [hmissing] at hholder
                cases hholder
              cases later.descend (path.start later.workingDir) (before.filterMap ofPiece?) with
              | error cause => exact ⟨cause, rfl, fun hdirect => absurd hdirect hnot⟩
              | ok holder => exact ⟨.isDirectory, rfl, fun hdirect => absurd hdirect hnot⟩
            · rw [start, hretains.workingDir, ← start,
                descend_retains hmade hretains hmissing]
              exact ⟨e, h, fun _ => rfl⟩

end WriteBytes

section Overwrite

variable {fs after later : FileSystem} {path : Path} {text : Text} {e : Error}
variable (hfs : fs.LinkFree) (htree : fs.IsTree) (hlinks : later.LinkFree) (hlater : later.IsTree)
include hfs htree hlinks hlater

/-- Where a file was written, writing it again puts the text there. -/
theorem overwrite_again_of_none (h : fs.overwrite path text = ⟨none, after⟩)
    (hretains : after.Retains later) (other : Text) :
    (∃ bytes, later.get? (path.spelled later.workingDir) = some (.file bytes)) ∧
      later.overwrite path other =
        ⟨none, later.put (path.spelled later.workingDir) (.file (encodeUtf8 other))⟩ := by
  obtain ⟨dir, name, hname, rfl⟩ := exists_child_of_overwrite h
  have hleads := leads_of_overwrite hfs hname h
  have hkept := hleads.mono hretains.workingDir hretains.directory
  obtain ⟨made, hparents, hplace, hnil, hdirectory, rfl⟩ := overwrite_none hfs h
  have hadds := addsDirectories_of_makeParents hparents
  obtain ⟨hcheck, hshort, -⟩ := leads_of_place_child (hadds.linkFree hfs) hname hplace
  obtain ⟨held, hheld⟩ := hretains.file _ _ (get?_put_self made hnil (.file (encodeUtf8 text)))
  have hmade : (fs.makeParents (dir.child name)).fs.Retains later := by
    rw [hparents]
    exact (Retains.put_file hnil hdirectory _).trans hretains
  obtain ⟨again?, hagain, hsome, -⟩ := makeParents_again hfs htree hlinks hlater hmade
  obtain rfl : again? = none := by simpa [hparents] using hsome
  have hdir : later.workingDir = fs.workingDir := hretains.workingDir.trans hadds.workingDir
  rw [hdir]
  refine ⟨⟨held, hheld⟩, ?_⟩
  have hfound := place_child hlinks hname hcheck hshort hkept
  rw [hdir, ← spelled_child_name _ _ hname, hheld] at hfound
  rw [overwrite_eq, hagain]
  simp only [Option.isSome_none, Bool.false_eq_true, if_false,
    writeBytes_child hname hfound (by simp)]

/-- Where writing has failed, it fails again and changes nothing. -/
theorem overwrite_again_of_some (h : fs.overwrite path text = ⟨some e, after⟩)
    (hretains : after.Retains later) (other : Text) :
    ∃ e', later.overwrite path other = ⟨some e', later⟩ ∧ (IsDirect path → e' = e) := by
  rw [overwrite_some h] at hretains
  obtain ⟨again?, hagain, hsome, hsame⟩ := makeParents_again hfs htree hlinks hlater hretains
  rw [overwrite_eq] at h
  rw [overwrite_eq, hagain]
  rcases hmake : fs.makeParents path with ⟨_ | cause, made⟩
  · rw [hmake] at hretains hsome h
    obtain rfl : again? = none := by simpa using hsome
    simp only [Option.isSome_none, Bool.false_eq_true, if_false] at h ⊢
    cases hwrite : made.writeBytes path (encodeUtf8 text) with
    | ok changed => simp [hwrite] at h
    | error cause =>
        obtain ⟨e', hwrite', he⟩ := writeBytes_again hfs htree hlinks hlater hmake hretains hwrite
          (encodeUtf8 other)
        rw [hwrite] at h
        obtain rfl : cause = e := by simpa using congrArg Change.error? h
        rw [hwrite']
        exact ⟨e', rfl, he⟩
  · rw [hmake] at hsome hsame h
    obtain ⟨e', rfl⟩ := Option.isSome_iff_exists.mp hsome
    obtain rfl : cause = e := by simpa using congrArg Change.error? h
    refine ⟨e', rfl, fun hdirect => ?_⟩
    exact Option.some.inj (hsame hdirect.1)

end Overwrite

section Rewrite

variable {fs : FileSystem} {writes : List (Path × Text)}

/-- The file system with the texts put at the locations that their paths spell. -/
def rewrite (fs : FileSystem) (writes : List (Path × Text)) : FileSystem :=
  writes.foldl
    (fun now write => now.put (write.1.spelled now.workingDir) (.file (encodeUtf8 write.2))) fs

theorem rewrite_cons (fs : FileSystem) (path : Path) (text : Text) (rest : List (Path × Text)) :
    fs.rewrite ((path, text) :: rest) =
      (fs.put (path.spelled fs.workingDir) (.file (encodeUtf8 text))).rewrite rest := rfl

/-- What is put where a text is put later does not matter. -/
theorem rewrite_put {location : Location} {value : Entry} (hnil : location ≠ [])
    (hget : fs.get? location ≠ none)
    (hwrites : ∀ write ∈ writes, write.1.spelled fs.workingDir ≠ [])
    (hlater : lastWrite fs.workingDir writes location ≠ none) :
    (fs.put location value).rewrite writes = fs.rewrite writes := by
  induction writes generalizing fs with
  | nil => exact absurd rfl hlater
  | cons write rest ih =>
      obtain ⟨path, text⟩ := write
      rw [rewrite_cons, rewrite_cons, put_workingDir]
      by_cases hsame : path.spelled fs.workingDir = location
      · rw [hsame, put_put_self]
      · have hpath := hwrites (path, text) List.mem_cons_self
        rw [put_comm hnil (Ne.symm hsame) hget]
        apply ih
        · rw [get?_put_of_ne fs hpath _ (Ne.symm hsame)]
          exact hget
        · exact fun write hwrite => hwrites write (List.mem_cons_of_mem _ hwrite)
        · rwa [lastWrite_cons, if_neg hsame, Option.or_none] at hlater

/-- Where every location holds the last text for it, putting all texts again changes nothing. -/
theorem rewrite_eq_self (h : ∀ location text, lastWrite fs.workingDir writes location = some text →
      fs.get? location = some (.file (encodeUtf8 text))) :
    fs.rewrite writes = fs := by
  have hnil : ∀ {location text}, fs.get? location = some (.file (encodeUtf8 text)) →
      location ≠ [] := by
    rintro location text hget rfl
    cases hget
  induction writes with
  | nil => rfl
  | cons write rest ih =>
      obtain ⟨path, text⟩ := write
      have hrest : ∀ location text, lastWrite fs.workingDir rest location = some text →
          fs.get? location = some (.file (encodeUtf8 text)) := by
        intro location found hfound
        apply h
        rw [lastWrite_cons, hfound, Option.some_or]
      rw [rewrite_cons]
      cases hlast : lastWrite fs.workingDir rest (path.spelled fs.workingDir) with
      | none =>
          have hget : fs.get? (path.spelled fs.workingDir) = some (.file (encodeUtf8 text)) := by
            apply h
            rw [lastWrite_cons, hlast, if_pos rfl, Option.none_or]
          rw [put_of_get? (hnil hget) hget]
          exact ih hrest
      | some later =>
          have hget := hrest _ later hlast
          rw [rewrite_put (hnil hget)]
          · exact ih hrest
          · rw [hget]
            simp
          · intro write hwrite
            have hne : lastWrite fs.workingDir rest (write.1.spelled fs.workingDir) ≠ none :=
              fun hnone => lastWrite_eq_none_iff.mp hnone write hwrite rfl
            obtain ⟨found, hfound⟩ := Option.ne_none_iff_exists'.mp hne
            exact hnil (hrest _ found hfound)
          · rw [hlast]
            simp

end Rewrite

end TreeFold.FileSystem
