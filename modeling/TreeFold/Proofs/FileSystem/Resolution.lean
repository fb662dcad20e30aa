import TreeFold.Proofs.FileSystem.Entries
import TreeFold.Proofs.Path.Moves

/-!
# Resolution without links

Where there are no links, following a path follows its moves: each place on the way must be a
directory, and the place found is the location that the path spells. Directories on the way stay
when entries are added, so what was found is found again.
-/

namespace TreeFold.FileSystem

open Component TreeFold.Path

/-- Whether the name of a component is short enough for an entry. -/
def Fits : Component → Prop
  | .normal name => Text.byteLength name ≤ maxNameLength
  | _ => True

/-- Every place from the location on, as far as the moves go, is a directory. -/
def Passes (fs : FileSystem) : Location → List Component → Prop
  | location, [] => fs.get? location = some .directory
  | location, c :: rest => fs.get? location = some .directory ∧ Fits c ∧
      Passes fs (followComponent location c) rest

/-- The path leads through directories to a directory. -/
def Leads (fs : FileSystem) (path : Path) : Prop :=
  fs.Passes (path.start fs.workingDir) path.moves

section Passes

variable {fs : FileSystem}

theorem Passes.start {location : Location} {moves : List Component}
    (h : fs.Passes location moves) : fs.get? location = some .directory := by
  cases moves with
  | nil => exact h
  | cons c rest => exact h.1

theorem passes_append {location : Location} {front rest : List Component} :
    fs.Passes location (front ++ rest) ↔ fs.Passes location front ∧
      fs.Passes (front.foldl followComponent location) rest := by
  induction front generalizing location with
  | nil => exact ⟨fun h => ⟨h.start, h⟩, fun h => h.2⟩
  | cons c front ih =>
      rw [List.cons_append, List.foldl_cons, Passes, Passes, ih, and_assoc, and_assoc]

theorem Passes.target {location : Location} {moves : List Component}
    (h : fs.Passes location moves) :
    fs.get? (moves.foldl followComponent location) = some .directory := by
  rw [← List.append_nil moves] at h
  exact (passes_append.mp h).2

theorem Passes.fits {location : Location} {moves : List Component}
    (h : fs.Passes location moves) : ∀ c ∈ moves, Fits c := by
  induction moves generalizing location with
  | nil => simp
  | cons c rest ih =>
      intro d hd
      rcases List.mem_cons.mp hd with rfl | hd
      · exact h.2.1
      · exact ih h.2.2 d hd

theorem Passes.mono {later : FileSystem}
    (hkeep : ∀ l, fs.get? l = some .directory → later.get? l = some .directory)
    {location : Location} {moves : List Component} (h : fs.Passes location moves) :
    later.Passes location moves := by
  induction moves generalizing location with
  | nil => exact hkeep location h
  | cons c rest ih => exact ⟨hkeep location h.1, h.2.1, ih h.2.2⟩

theorem Leads.mono {later : FileSystem} (hdir : later.workingDir = fs.workingDir)
    (hkeep : ∀ l, fs.get? l = some .directory → later.get? l = some .directory)
    {path : Path} (h : fs.Leads path) : later.Leads path := by
  rw [Leads, hdir]
  exact Passes.mono hkeep h

theorem Leads.extends {later : FileSystem} (hext : fs.Extends later) {path : Path}
    (h : fs.Leads path) : later.Leads path :=
  h.mono hext.workingDir fun l => hext.keeps l _

/-- Paths of the same components lead alike. -/
theorem leads_congr {a b : Path} (hmoves : a.moves = b.moves)
    (habsolute : a.isAbsolute = b.isAbsolute) : fs.Leads a ↔ fs.Leads b := by
  rw [Leads, Leads, Path.start, Path.start, hmoves, habsolute]

end Passes

section Follow

variable {fs : FileSystem} {onLink : Location → Path → List Text → Except Error Place}

/-- How one piece is followed from a directory. -/
theorem followPieces_cons {location : Location} (hdir : fs.get? location = some .directory)
    (piece : Text) (rest : List Text) :
    fs.followPieces onLink location (piece :: rest) =
      match ofPiece? piece with
      | none => fs.followPieces onLink location rest
      | some c =>
        if c = .parent then fs.followPieces onLink location.dropLast rest
        else if Text.byteLength piece > maxNameLength then .error .nameTooLong
        else match fs.get? (location ++ [piece]) with
          | none => if rest = [] then .ok ⟨location ++ [piece], none⟩ else .error .notFound
          | some (.link target) => onLink location target rest
          | some _ => fs.followPieces onLink (location ++ [piece]) rest := by
  rw [followPieces, if_neg (fun hne => hne hdir), ofPiece?]
  by_cases hskip : (piece = [] || piece = ['.']) = true
  · rw [if_pos hskip, if_pos hskip]
  · rw [if_neg hskip, if_neg hskip]
    by_cases hdots : piece = ['.', '.']
    · simp [hdots]
    · rw [if_neg hdots, if_neg hdots]
      have hnormal : normal piece ≠ parent := Component.noConfusion
      refine Eq.trans (if_congr Iff.rfl rfl ?_) (if_neg hnormal).symm
      cases fs.get? (location ++ [piece]) with
      | none => rfl
      | some entry => cases entry <;> rfl

theorem get?_of_followPieces_cons {location : Location} {piece : Text} {rest : List Text}
    {place : Place} (h : fs.followPieces onLink location (piece :: rest) = .ok place) :
    fs.get? location = some .directory := by
  by_contra hdir
  rw [followPieces, if_pos hdir] at h
  cases h

/-- Pieces that lead through directories can be followed first. -/
theorem followPieces_append (onLink : Location → Path → List Text → Except Error Place)
    {location : Location} {before : List Text}
    (h : fs.Passes location (before.filterMap ofPiece?)) (rest : List Text) :
    fs.followPieces onLink location (before ++ rest) =
      fs.followPieces onLink ((before.filterMap ofPiece?).foldl followComponent location) rest := by
  induction before generalizing location with
  | nil => rfl
  | cons piece before ih =>
      rw [List.cons_append, followPieces_cons h.start]
      cases hpiece : ofPiece? piece with
      | none =>
          rw [List.filterMap_cons_none hpiece] at h ⊢
          exact ih h
      | some c =>
          rw [List.filterMap_cons_some hpiece] at h ⊢
          rw [List.foldl_cons]
          rcases (ofPiece?_eq_some hpiece).2.2 with rfl | rfl
          · exact ih h.2.2
          · have hfits : ¬Text.byteLength piece > maxNameLength := Nat.not_lt.mpr h.2.1
            have hnext : fs.get? (location ++ [piece]) = some .directory := h.2.2.start
            simp only [reduceCtorEq, if_false, hfits, hnext]
            exact ih h.2.2

/-- A piece that is followed and names no link skips, or leads to where the rest is followed, or is
the last one and names nothing. -/
theorem followPieces_cons_inv {location : Location} {piece : Text} {rest : List Text}
    {place : Place} (hlink : ∀ target, fs.get? (location ++ [piece]) ≠ some (.link target))
    (h : fs.followPieces onLink location (piece :: rest) = .ok place) :
    fs.get? location = some .directory ∧
      match ofPiece? piece with
      | none => fs.followPieces onLink location rest = .ok place
      | some c => Fits c ∧
        (fs.followPieces onLink (followComponent location c) rest = .ok place ∨
          rest = [] ∧ place = ⟨followComponent location c, none⟩ ∧
            fs.get? (followComponent location c) = none) := by
  have hdir := get?_of_followPieces_cons h
  refine ⟨hdir, ?_⟩
  rw [followPieces_cons hdir] at h
  cases hpiece : ofPiece? piece with
  | none => simpa only [hpiece] using h
  | some c =>
      rw [hpiece] at h
      rcases (ofPiece?_eq_some hpiece).2.2 with rfl | rfl
      · exact ⟨trivial, Or.inl h⟩
      · simp only [reduceCtorEq, if_false] at h
        by_cases hlong : Text.byteLength piece > maxNameLength
        · rw [if_pos hlong] at h
          cases h
        rw [if_neg hlong] at h
        refine ⟨Nat.not_lt.mp hlong, ?_⟩
        cases hget : fs.get? (location ++ [piece]) with
        | none =>
            rw [hget] at h
            by_cases hrest : rest = []
            · simp only [hrest, if_true, Except.ok.injEq] at h
              exact Or.inr ⟨hrest, h.symm, hget⟩
            · simp [hrest] at h
        | some entry =>
            cases entry with
            | link target => exact absurd hget (hlink target)
            | directory =>
                rw [hget] at h
                exact Or.inl h
            | file bytes =>
                rw [hget] at h
                exact Or.inl h

/-- Without links, what is found stands at the location spelled, and a directory is reached
through directories. -/
theorem followPieces_spec (hfs : fs.LinkFree) {location : Location} {pieces : List Text}
    {place : Place} (h : fs.followPieces onLink location pieces = .ok place) :
    place.location = (pieces.filterMap ofPiece?).foldl followComponent location ∧
      place.entry? = fs.get? place.location ∧
      (place.entry? = some .directory → fs.Passes location (pieces.filterMap ofPiece?)) := by
  induction pieces generalizing location with
  | nil =>
      cases h
      exact ⟨rfl, rfl, id⟩
  | cons piece rest ih =>
      obtain ⟨hdir, hnext⟩ := followPieces_cons_inv (hfs _) h
      cases hpiece : ofPiece? piece with
      | none =>
          rw [hpiece] at hnext
          rw [List.filterMap_cons_none hpiece]
          exact ih hnext
      | some c =>
          rw [hpiece] at hnext
          rw [List.filterMap_cons_some hpiece, List.foldl_cons]
          obtain ⟨hfits, hfollow | ⟨rfl, rfl, hnone⟩⟩ := hnext
          · obtain ⟨hplace, hentry, hpasses⟩ := ih hfollow
            exact ⟨hplace, hentry, fun he => ⟨hdir, hfits, hpasses he⟩⟩
          · exact ⟨rfl, hnone.symm, fun he => by cases he⟩

/-- Without links, all but the last piece lead through directories. -/
theorem passes_of_followPieces_append (hfs : fs.LinkFree) {location : Location}
    {before rest : List Text} {last : Text} {place : Place}
    (h : fs.followPieces onLink location (before ++ last :: rest) = .ok place) :
    fs.Passes location (before.filterMap ofPiece?) := by
  induction before generalizing location with
  | nil => exact get?_of_followPieces_cons h
  | cons piece before ih =>
      obtain ⟨hdir, hnext⟩ := followPieces_cons_inv (hfs _) h
      cases hpiece : ofPiece? piece with
      | none =>
          rw [hpiece] at hnext
          rw [List.filterMap_cons_none hpiece]
          exact ih hnext
      | some c =>
          rw [hpiece] at hnext
          rw [List.filterMap_cons_some hpiece]
          obtain ⟨hfits, hfollow | ⟨hrest, -, -⟩⟩ := hnext
          · exact ⟨hdir, hfits, ih hfollow⟩
          · simp at hrest

/-- A short name behind directories names the place where its entry is or could be. -/
theorem followPieces_name (hfs : fs.LinkFree) {location : Location} {before : List Text}
    {name : Name} (hname : IsEntryName name) (hfits : Text.byteLength name ≤ maxNameLength)
    (h : fs.Passes location (before.filterMap ofPiece?)) :
    fs.followPieces onLink location (before ++ [name]) =
      .ok ⟨(before.filterMap ofPiece?).foldl followComponent location ++ [name],
        fs.get? ((before.filterMap ofPiece?).foldl followComponent location ++ [name])⟩ := by
  rw [followPieces_append onLink h, followPieces_cons h.target, hname.1]
  simp only [reduceCtorEq, if_false, Nat.not_lt.mpr hfits]
  split
  · rename_i hget
    rw [hget]
    rfl
  · rename_i target hget
    exact absurd hget (hfs _ target)
  · rfl

end Follow

section Place

variable {fs : FileSystem}

theorem throw_eq_error {α : Type} (e : Error) : (throw e : Except Error α) = .error e := rfl

theorem startOf_eq (fs : FileSystem) (path : Path) : fs.startOf path = path.start fs.workingDir :=
  rfl

theorem place_eq (fs : FileSystem) (path : Path) :
    fs.place path = match checkPath path with
      | .error e => .error e
      | .ok _ => fs.follow maxLinks (path.start fs.workingDir) path.pieces := by
  rw [place]
  cases checkPath path <;> rfl

theorem exists_follow_eq (fs : FileSystem) (links : Nat) :
    ∃ onLink, ∀ location pieces,
      fs.follow links location pieces = fs.followPieces onLink location pieces := by
  cases links with
  | zero => exact ⟨_, fun _ _ => rfl⟩
  | succ links => exact ⟨_, fun _ _ => rfl⟩

/-- Without links, a path names the place that it spells. -/
theorem place_spec (hfs : fs.LinkFree) {path : Path} {place : Place}
    (h : fs.place path = .ok place) :
    place.location = path.spelled fs.workingDir ∧ place.entry? = fs.get? place.location := by
  rw [place_eq] at h
  split at h
  · cases h
  · obtain ⟨onLink, hfollow⟩ := exists_follow_eq fs maxLinks
    rw [hfollow] at h
    obtain ⟨hplace, hentry, -⟩ := followPieces_spec hfs h
    exact ⟨hplace, hentry⟩

/-- Without links, a path names a directory exactly when it leads through directories. -/
theorem isDirectory_iff (hfs : fs.LinkFree) {path : Path} :
    fs.isDirectory path = true ↔ checkPath path = .ok () ∧ fs.Leads path := by
  obtain ⟨onLink, hfollow⟩ := exists_follow_eq fs maxLinks
  rw [isDirectory, stat, place_eq]
  cases hcheck : checkPath path with
  | error e => simp [bind, Except.bind]
  | ok u =>
      simp only [true_and]
      rw [hfollow]
      constructor
      · intro h
        cases hplace : fs.followPieces onLink (path.start fs.workingDir) path.pieces with
        | error e => simp [hplace, bind, Except.bind] at h
        | ok place =>
            obtain ⟨location, entry?⟩ := place
            have hdirectory : entry? = some .directory := by
              cases entry? with
              | none => simp [hplace, bind, Except.bind, throw_eq_error] at h
              | some entry => cases entry <;> simp_all [bind, Except.bind, pure, Except.pure]
            exact (followPieces_spec hfs hplace).2.2 hdirectory
      · intro h
        have happend := followPieces_append onLink h []
        rw [List.append_nil] at happend
        rw [show path.pieces.filterMap ofPiece? = path.moves from rfl] at happend
        rw [happend, followPieces, h.target]
        rfl

/-- A short name below a path that leads to a directory names the place of its entry. -/
theorem place_child (hfs : fs.LinkFree) {path : Path} {name : Name} (hname : IsEntryName name)
    (hcheck : checkPath (path.child name) = .ok ())
    (hfits : Text.byteLength name ≤ maxNameLength) (h : fs.Leads path) :
    fs.place (path.child name) = .ok ⟨path.spelled fs.workingDir ++ [name],
      fs.get? (path.spelled fs.workingDir ++ [name])⟩ := by
  obtain ⟨onLink, hfollow⟩ := exists_follow_eq fs maxLinks
  obtain ⟨before, hpieces, hmoves, -⟩ := pieces_child path hname
  have hpasses : fs.Passes (path.start fs.workingDir) (before.filterMap ofPiece?) := by
    rw [hmoves]
    exact h
  rw [place_eq, hcheck, start_child _ _ hname, hpieces]
  simp only
  rw [hfollow, followPieces_name hfs hname hfits hpasses, hmoves]
  rfl

/-- A name that is too long is refused where its entry could be. -/
theorem place_child_of_long {path : Path} {name : Name} (hname : IsEntryName name)
    (hcheck : checkPath (path.child name) = .ok ())
    (hlong : Text.byteLength name > maxNameLength) (h : fs.Leads path) :
    fs.place (path.child name) = .error .nameTooLong := by
  obtain ⟨onLink, hfollow⟩ := exists_follow_eq fs maxLinks
  obtain ⟨before, hpieces, hmoves, -⟩ := pieces_child path hname
  have hpasses : fs.Passes (path.start fs.workingDir) (before.filterMap ofPiece?) := by
    rw [hmoves]
    exact h
  rw [place_eq, hcheck, start_child _ _ hname, hpieces]
  simp only
  rw [hfollow, followPieces_append onLink hpasses, followPieces_cons hpasses.target, hname.1]
  simp [hlong]

/-- A name that can be followed stands behind directories and is short. -/
theorem leads_of_place_child (hfs : fs.LinkFree) {path : Path} {name : Name}
    (hname : IsEntryName name) {place : Place} (h : fs.place (path.child name) = .ok place) :
    checkPath (path.child name) = .ok () ∧ Text.byteLength name ≤ maxNameLength ∧
      fs.Leads path := by
  obtain ⟨onLink, hfollow⟩ := exists_follow_eq fs maxLinks
  obtain ⟨before, hpieces, hmoves, -⟩ := pieces_child path hname
  rw [place_eq] at h
  cases hcheck : checkPath (path.child name) with
  | error e => rw [hcheck] at h; cases h
  | ok u =>
      rw [hcheck, start_child _ _ hname, hpieces] at h
      simp only at h
      rw [hfollow] at h
      have hpasses := passes_of_followPieces_append hfs h
      refine ⟨rfl, ?_, ?_⟩
      · by_contra hlong
        rw [followPieces_append onLink hpasses, followPieces_cons hpasses.target, hname.1] at h
        simp [Nat.lt_of_not_le hlong] at h
      · rw [hmoves] at hpasses
        exact hpasses

end Place

end TreeFold.FileSystem
