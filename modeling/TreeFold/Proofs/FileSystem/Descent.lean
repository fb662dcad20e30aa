import TreeFold.Proofs.FileSystem.Tree

/-!
# Descending through directories

In a tree without links, the directory that holds the last piece of a path is found by following
the moves before it. This fails where an entry is missing, where a file stands in the way, and where
a name is too long.

Where directories and files stay, only what was missing can be there later. So a directory that
could not be made for another reason can never be made, and the reason stays the same.
-/

namespace TreeFold.FileSystem

open Component TreeFold.Path

instance : DecidablePred Fits
  | .root | .current | .parent => isTrue trivial
  | .normal name => inferInstanceAs (Decidable (Text.byteLength name ≤ maxNameLength))

/-- The location, when a directory stands there. -/
def enter (fs : FileSystem) (location : Location) : Except Error Location :=
  match fs.get? location with
  | some .directory => .ok location
  | some _ => .error .notDirectory
  | none => .error .notFound

/-- The directory that moves lead to through directories. -/
def descend (fs : FileSystem) : Location → List Component → Except Error Location
  | location, [] => fs.enter location
  | location, c :: rest =>
    match fs.enter location with
    | .error e => .error e
    | .ok here =>
      if Fits c then fs.descend (followComponent here c) rest else .error .nameTooLong

section Descend

variable {fs later : FileSystem} {location here : Location} {moves : List Component} {e : Error}

theorem enter_of_directory (h : fs.get? location = some .directory) :
    fs.enter location = .ok location := by
  rw [enter, h]

theorem enter_ok_iff :
    fs.enter location = .ok here ↔ fs.get? location = some .directory ∧ here = location := by
  rw [enter]
  rcases fs.get? location with _ | (_ | _ | _) <;> simp [eq_comm]

theorem descend_cons (h : fs.get? location = some .directory) (c : Component)
    (rest : List Component) :
    fs.descend location (c :: rest) =
      if Fits c then fs.descend (followComponent location c) rest else .error .nameTooLong := by
  rw [descend, enter_of_directory h]

/-- Where no directory stands, no moves can be followed. -/
theorem descend_of_error (h : fs.enter location = .error e) (moves : List Component) :
    fs.descend location moves = .error e := by
  cases moves with
  | nil => exact h
  | cons c rest => rw [descend, h]

theorem descend_ok_iff {reached : Location} :
    fs.descend location moves = .ok reached ↔
      fs.Passes location moves ∧ reached = moves.foldl followComponent location := by
  induction moves generalizing location with
  | nil => exact enter_ok_iff
  | cons c rest ih =>
      rw [descend, List.foldl_cons, Passes]
      cases henter : fs.enter location with
      | error e =>
          have hdirectory : fs.get? location ≠ some .directory := by
            intro hget
            rw [enter_of_directory hget] at henter
            cases henter
          simp [hdirectory]
      | ok here =>
          obtain ⟨hget, rfl⟩ := enter_ok_iff.mp henter
          by_cases hfits : Fits c
          · simp only [hfits, if_true, ih, hget, true_and]
          · simp [hfits]

theorem descend_append (fs : FileSystem) (location : Location) (front rest : List Component) :
    fs.descend location (front ++ rest) =
      match fs.descend location front with
      | .error e => .error e
      | .ok here => fs.descend here rest := by
  induction front generalizing location with
  | nil =>
      rw [List.nil_append, descend]
      cases henter : fs.enter location with
      | error e => exact descend_of_error henter rest
      | ok here => rw [(enter_ok_iff.mp henter).2]
  | cons c front ih =>
      rw [List.cons_append, descend, descend]
      cases fs.enter location with
      | error e => rfl
      | ok here =>
          by_cases hfits : Fits c
          · simp only [hfits, if_true, ih]
          · simp only [hfits, if_false]

/-- Moves fail for a missing entry, a file in the way, or a long name. -/
theorem descend_error_cases (h : fs.descend location moves = .error e) :
    e = .notFound ∨ e = .notDirectory ∨ e = .nameTooLong := by
  have henter : ∀ {location e}, fs.enter location = .error e →
      e = .notFound ∨ e = .notDirectory := by
    intro location e henter
    rw [enter] at henter
    split at henter <;> cases henter <;> simp
  induction moves generalizing location with
  | nil => exact (henter h).imp_right Or.inl
  | cons c rest ih =>
      rw [descend] at h
      split at h
      · rename_i he
        cases h
        exact (henter he).imp_right Or.inl
      · split at h
        · exact ih h
        · cases h
          exact Or.inr (Or.inr rfl)

theorem enter_retains (hfs : fs.LinkFree) (hlater : fs.Retains later)
    (h : fs.enter location ≠ .error .notFound) : later.enter location = fs.enter location := by
  cases hget : fs.get? location with
  | none => simp [enter, hget] at h
  | some entry =>
      cases entry with
      | directory => rw [enter, enter, hget, hlater.directory location hget]
      | file bytes =>
          obtain ⟨held, hheld⟩ := hlater.file location bytes hget
          rw [enter, enter, hget, hheld]
      | link target => exact absurd hget (hfs location target)

/-- Only where an entry was missing can moves lead elsewhere later. -/
theorem descend_retains (hfs : fs.LinkFree) (hlater : fs.Retains later)
    (h : fs.descend location moves ≠ .error .notFound) :
    later.descend location moves = fs.descend location moves := by
  induction moves generalizing location with
  | nil => exact enter_retains hfs hlater h
  | cons c rest ih =>
      have hkept : later.enter location = fs.enter location := by
        apply enter_retains hfs hlater
        intro henter
        exact h (descend_of_error henter _)
      rw [descend] at h ⊢
      rw [descend, hkept]
      cases henter : fs.enter location with
      | error e => rfl
      | ok here =>
          by_cases hfits : Fits c
          · simp only [henter, hfits, if_true] at h ⊢
            exact ih h
          · simp only [hfits, if_false]

end Descend

section DirectoryOf

variable {fs : FileSystem} {path : Path}

/-- Without links, pieces lead from an entry of a tree to the directory that their moves lead
to. -/
theorem followPieces_enter (hfs : fs.LinkFree) (htree : fs.IsTree)
    (onLink : Location → Path → List Text → Except Error Place) {location : Location}
    (hheld : fs.get? location ≠ none) (pieces : List Text) :
    (fs.followPieces onLink location pieces).bind (fun place => fs.enter place.location) =
      fs.descend location (pieces.filterMap ofPiece?) := by
  induction pieces generalizing location with
  | nil => rfl
  | cons piece rest ih =>
      by_cases hdir : fs.get? location = some .directory
      · rw [followPieces_cons hdir]
        cases hpiece : ofPiece? piece with
        | none =>
            rw [List.filterMap_cons_none hpiece]
            exact ih hheld
        | some c =>
            rw [List.filterMap_cons_some hpiece, descend_cons hdir]
            rcases (ofPiece?_eq_some hpiece).2.2 with rfl | rfl
            · have habove : fs.get? location.dropLast ≠ none := by
                rw [htree.get?_dropLast hdir]
                simp
              have hfits : Fits .parent := trivial
              simp only [if_true, hfits, followComponent]
              exact ih habove
            · simp only [reduceCtorEq, if_false, followComponent]
              by_cases hlong : Text.byteLength piece > maxNameLength
              · have hfits : ¬Fits (.normal piece) := Nat.not_le.mpr hlong
                simp only [hlong, hfits, if_true, if_false]
                rfl
              · have hfits : Fits (.normal piece) := Nat.not_lt.mp hlong
                simp only [hlong, hfits, if_true, if_false]
                cases hget : fs.get? (location ++ [piece]) with
                | none =>
                    have henter : fs.enter (location ++ [piece]) = .error .notFound := by
                      rw [enter, hget]
                    rw [descend_of_error henter]
                    by_cases hrest : rest = []
                    · simp only [hrest, if_true]
                      exact henter
                    · simp only [hrest, if_false]
                      rfl
                | some entry =>
                    have hnext := ih (by rw [hget]; simp : fs.get? (location ++ [piece]) ≠ none)
                    cases entry with
                    | directory => exact hnext
                    | file bytes => exact hnext
                    | link target => exact absurd hget (hfs _ target)
      · have henter : fs.enter location = .error .notDirectory := by
          rw [enter]
          split
          · contradiction
          · rfl
          · contradiction
        rw [followPieces, if_pos hdir, descend_of_error henter]
        rfl

/-- In a tree without links, the directory that holds the last piece is found by moves. -/
theorem directoryOf_eq (hfs : fs.LinkFree) (htree : fs.IsTree) (path : Path)
    (before : List Text) :
    fs.directoryOf path before =
      fs.descend (path.start fs.workingDir) (before.filterMap ofPiece?) := by
  obtain ⟨onLink, hfollow⟩ := exists_follow_eq fs maxLinks
  have hstart : fs.get? (path.start fs.workingDir) ≠ none := by
    rw [htree.get?_start]
    simp
  rw [directoryOf, hfollow, startOf_eq, ← followPieces_enter hfs htree onLink hstart]
  cases hplace : fs.followPieces onLink (path.start fs.workingDir) before with
  | error e => rfl
  | ok place =>
      obtain ⟨location, entry?⟩ := place
      obtain ⟨-, hentry, -⟩ := followPieces_spec hfs hplace
      simp only at hentry
      simp only [bind, Except.bind, enter, ← hentry]
      rcases entry? with _ | (_ | _ | _) <;> rfl

end DirectoryOf

section MakeDirectory

variable {fs later made : FileSystem} {holder : Location} {path : Path} {e : Error}

theorem leads_iff_descend :
    fs.Leads path ↔ ∃ reached, fs.descend (path.start fs.workingDir) path.moves = .ok reached := by
  simp only [descend_ok_iff, exists_and_left, exists_eq, and_true]
  rfl

/-- Making a directory in the one that holds it. -/
def makeIn (fs : FileSystem) (holder : Location) (last : Text) : Except Error FileSystem :=
  if !isEntryName last then .error .alreadyExists
  else if Text.byteLength last > maxNameLength then .error .nameTooLong
  else if (fs.get? (holder ++ [last])).isSome then .error .alreadyExists
  else .ok (fs.put (holder ++ [last]) .directory)

theorem makeIn_name (fs : FileSystem) (holder : Location) {last : Text}
    (h : ofPiece? last = some (.normal last)) :
    fs.makeIn holder last =
      if Fits (.normal last) then
        if (fs.get? (holder ++ [last])).isSome then .error .alreadyExists
        else .ok (fs.put (holder ++ [last]) .directory)
      else .error .nameTooLong := by
  have hname : isEntryName last = true := isEntryName_iff.mpr h
  rw [makeIn, hname]
  by_cases hlong : Text.byteLength last > maxNameLength
  · have hfits : ¬Fits (.normal last) := Nat.not_le.mpr hlong
    simp [hlong, hfits]
  · have hfits : Fits (.normal last) := Nat.not_lt.mp hlong
    simp [hlong, hfits]

/-- A directory is made in the one that the moves before the last piece lead to. -/
theorem makeDirectory_eq (hfs : fs.LinkFree) (htree : fs.IsTree) (hcheck : checkPath path = .ok ())
    {before : List Text} {last : Text} (hsplit : splitLast? path = some (before, last)) :
    fs.makeDirectory path =
      match fs.descend (path.start fs.workingDir) (before.filterMap ofPiece?) with
      | .error e => .error e
      | .ok holder => fs.makeIn holder last := by
  rw [makeDirectory, hcheck]
  simp only [hsplit, directoryOf_eq hfs htree]
  cases fs.descend (path.start fs.workingDir) (before.filterMap ofPiece?) <;> rfl

/-- What moves lead to, and what making a directory there comes to. -/
inductive Makes : Except Error Location → Except Error FileSystem → Prop
  | there (reached : Location) : Makes (.ok reached) (.error .alreadyExists)
  | stopped (e : Error) : Makes (.error e) (.error e)
  /-- A file stands in the place of the directory. -/
  | taken : Makes (.error .notDirectory) (.error .alreadyExists)
  | new (made : FileSystem) : Makes (.error .notFound) (.ok made)

theorem makes_makeIn (hfs : fs.LinkFree) (htree : fs.IsTree)
    (hdir : fs.get? holder = some .directory) (last : Text) :
    Makes (fs.descend holder (ofPiece? last).toList) (fs.makeIn holder last) := by
  cases hlast : ofPiece? last with
  | none =>
      have hname : isEntryName last = false := by rw [isEntryName, hlast]; rfl
      rw [Option.toList_none, descend, enter_of_directory hdir, makeIn, hname]
      exact .there holder
  | some c =>
      rw [Option.toList_some, descend_cons hdir]
      rcases (ofPiece?_eq_some hlast).2.2 with rfl | rfl
      · have hname : isEntryName last = false := by rw [isEntryName, hlast]; rfl
        have hfits : Fits .parent := trivial
        rw [if_pos hfits, descend, followComponent,
          enter_of_directory (htree.get?_dropLast hdir), makeIn, hname]
        exact .there holder.dropLast
      · rw [makeIn_name fs holder hlast]
        by_cases hfits : Fits (.normal last)
        · rw [if_pos hfits, if_pos hfits, descend, followComponent, enter]
          cases hget : fs.get? (holder ++ [last]) with
          | none => exact .new _
          | some entry =>
              cases entry with
              | directory => exact .there _
              | file bytes => exact .taken
              | link target => exact absurd hget (hfs _ target)
        · rw [if_neg hfits, if_neg hfits]
          exact .stopped .nameTooLong

theorem makes_makeDirectory (hfs : fs.LinkFree) (htree : fs.IsTree)
    (hcheck : checkPath path = .ok ()) :
    Makes (fs.descend (path.start fs.workingDir) path.moves) (fs.makeDirectory path) := by
  cases hsplit : splitLast? path with
  | none =>
      rw [moves_of_splitLast?_none hsplit, descend, enter_of_directory (htree.get?_start path),
        makeDirectory, hcheck, hsplit]
      exact .there _
  | some found =>
      obtain ⟨before, last⟩ := found
      rw [makeDirectory_eq hfs htree hcheck hsplit, pieces_of_splitLast? hsplit, descend_append]
      cases hholder : fs.descend (path.start fs.workingDir) (before.filterMap ofPiece?) with
      | error e => exact .stopped e
      | ok holder =>
          obtain ⟨hpasses, hplace⟩ := descend_ok_iff.mp hholder
          exact makes_makeIn hfs htree (hplace ▸ hpasses.target) last

theorem makeIn_ne_notFound (fs : FileSystem) (holder : Location) (last : Text) :
    fs.makeIn holder last ≠ .error .notFound := by
  rw [makeIn]
  split
  · simp
  · split
    · simp
    · split <;> simp

/-- Where a directory is missing the one above, the moves before the last one lead to nothing. -/
theorem descend_of_makeDirectory_child (hfs : fs.LinkFree) (htree : fs.IsTree) {piece : Text}
    {c : Component} (hpiece : IsPiece piece c) (hcheck : checkPath (path.child piece) = .ok ())
    (h : fs.makeDirectory (path.child piece) = .error .notFound) :
    fs.descend (path.start fs.workingDir) path.moves = .error .notFound := by
  obtain ⟨before, hsplit, hbefore⟩ := splitLast?_child path hpiece
  rw [makeDirectory_eq hfs htree hcheck hsplit, hbefore, start_child _ path hpiece] at h
  split at h
  · rename_i hdescend
    rw [hdescend, Except.error.inj h]
  · exact absurd h (makeIn_ne_notFound fs _ piece)

theorem makeIn_retains (hfs : fs.LinkFree) (hretains : fs.Retains later) {last : Text}
    (h : fs.makeIn holder last = .error e) : later.makeIn holder last = .error e := by
  rw [makeIn] at h ⊢
  by_cases hname : isEntryName last = true
  · by_cases hlong : Text.byteLength last > maxNameLength
    · simpa [hname, hlong] using h
    · cases hget : fs.get? (holder ++ [last]) with
      | none => simp [hname, hlong, hget] at h
      | some entry =>
          obtain ⟨held, hheld⟩ := (hretains.persists hfs).exists_get? hget
          simpa [hname, hlong, hget, hheld] using h
  · simpa [hname] using h

/-- Only a directory that was missing the one above can be made later. -/
theorem makeDirectory_retains (hfs : fs.LinkFree) (htree : fs.IsTree)
    (hlinks : later.LinkFree) (hlater : later.IsTree) (hretains : fs.Retains later)
    (h : fs.makeDirectory path = .error e) (hne : e ≠ .notFound) :
    later.makeDirectory path = .error e := by
  cases hcheck : checkPath path with
  | error cause =>
      rw [makeDirectory, hcheck] at h ⊢
      exact h
  | ok u =>
      cases hsplit : splitLast? path with
      | none =>
          rw [makeDirectory, hcheck, hsplit] at h ⊢
          exact h
      | some found =>
          obtain ⟨before, last⟩ := found
          rw [makeDirectory_eq hfs htree hcheck hsplit] at h
          have hfound : fs.descend (path.start fs.workingDir) (before.filterMap ofPiece?) ≠
              .error .notFound := by
            intro hmissing
            rw [hmissing] at h
            exact hne (Except.error.inj h).symm
          rw [makeDirectory_eq hlinks hlater hcheck hsplit, start, hretains.workingDir, ← start,
            descend_retains hfs hretains hfound]
          split at h
          · exact h
          · exact makeIn_retains hfs hretains h

end MakeDirectory

end TreeFold.FileSystem
