import TreeFold.Proofs.FileSystem.Overwrite

/-!
# Where paths arrive

A path arrives somewhere even when directories on its way are still missing: a missing directory is
passed as if it were there, a link is followed, and nothing lies behind a file. The places that a
later file system resolves are places where the same moves arrive from the start, as long as
directories, files and links stay and no link is new.

The directories made for a path are therefore where its leading moves arrive.
-/

namespace TreeFold.FileSystem

open Component TreeFold.Path

/-- The moves arrive at a location, missing directories passed and links followed. -/
inductive Arrives (fs : FileSystem) : Location → List Component → Location → Prop
  | here (location : Location) : Arrives fs location [] location
  | up {location reached : Location} {rest : List Component}
      (tail : Arrives fs location.dropLast rest reached) :
      Arrives fs location (.parent :: rest) reached
  | down {location reached : Location} {name : Name} {rest : List Component}
      (hget : fs.get? (location ++ [name]) = none ∨
        fs.get? (location ++ [name]) = some .directory)
      (tail : Arrives fs (location ++ [name]) rest reached) :
      Arrives fs location (.normal name :: rest) reached
  | along {location reached : Location} {name : Name} {target : Path} {rest : List Component}
      (hget : fs.get? (location ++ [name]) = some (.link target))
      (tail : Arrives fs (target.start location) (target.moves ++ rest) reached) :
      Arrives fs location (.normal name :: rest) reached

namespace Arrives

variable {fs : FileSystem} {location middle reached : Location} {front rest : List Component}

theorem trans (hfront : fs.Arrives location front middle) (hrest : fs.Arrives middle rest reached) :
    fs.Arrives location (front ++ rest) reached := by
  induction hfront with
  | here location => exact hrest
  | up tail ih => exact .up (ih hrest)
  | down hget tail ih => exact .down hget (ih hrest)
  | along hget tail ih =>
      have hnext := ih hrest
      rw [List.append_assoc] at hnext
      exact .along hget hnext

/-- Moves that begin with a name go on from there when it is no file and no link. -/
theorem tail_of_down {name : Name} (hget : fs.get? (location ++ [name]) = none ∨
      fs.get? (location ++ [name]) = some .directory)
    (h : fs.Arrives location (.normal name :: rest) reached) :
    fs.Arrives (location ++ [name]) rest reached := by
  cases h with
  | down _ tail => exact tail
  | along hlink tail => rcases hget with hget | hget <;> cases hlink.symm.trans hget

/-- Moves that begin with the name of a link go on where it points to. -/
theorem tail_of_along {name : Name} {target : Path}
    (hget : fs.get? (location ++ [name]) = some (.link target))
    (h : fs.Arrives location (.normal name :: rest) reached) :
    fs.Arrives (target.start location) (target.moves ++ rest) reached := by
  cases h with
  | down hdown tail => rcases hdown with hdown | hdown <;> cases hget.symm.trans hdown
  | along hlink tail =>
      cases hget.symm.trans hlink
      exact tail

/-- Moves that arrive pass by where their first part arrives. -/
theorem split (h : fs.Arrives location (front ++ rest) reached) :
    ∃ middle, fs.Arrives location front middle ∧ fs.Arrives middle rest reached := by
  generalize hmoves : front ++ rest = moves at h
  induction h generalizing front with
  | here location =>
      obtain ⟨rfl, rfl⟩ := List.append_eq_nil_iff.mp hmoves
      exact ⟨location, .here location, .here location⟩
  | @up location reached tailMoves tail ih =>
      rcases List.append_eq_cons_iff.mp hmoves with ⟨rfl, rfl⟩ | ⟨more, rfl, htail⟩
      · exact ⟨location, .here location, .up tail⟩
      · obtain ⟨middle, hfront, hrest⟩ := ih htail.symm
        exact ⟨middle, .up hfront, hrest⟩
  | @down location reached name tailMoves hget tail ih =>
      rcases List.append_eq_cons_iff.mp hmoves with ⟨rfl, rfl⟩ | ⟨more, rfl, htail⟩
      · exact ⟨location, .here location, .down hget tail⟩
      · obtain ⟨middle, hfront, hrest⟩ := ih htail.symm
        exact ⟨middle, .down hget hfront, hrest⟩
  | @along location reached name target tailMoves hget tail ih =>
      rcases List.append_eq_cons_iff.mp hmoves with ⟨rfl, rfl⟩ | ⟨more, rfl, htail⟩
      · exact ⟨location, .here location, .along hget tail⟩
      · have hfollowed : (target.moves ++ more) ++ rest = target.moves ++ tailMoves := by
          rw [List.append_assoc, htail]
        obtain ⟨middle, hfront, hrest⟩ := ih hfollowed
        exact ⟨middle, .along hget hfront, hrest⟩

end Arrives

/-- No link stands at the location or below it. -/
def LinkFreeBelow (fs : FileSystem) (root : Location) : Prop :=
  ∀ names target, fs.get? (root ++ names) ≠ some (.link target)

theorem linkFreeBelow_of_entries {fs : FileSystem} {root : Location}
    (h : ∀ entry ∈ fs.entries, root <+: entry.1 → ∀ target, entry.2 ≠ .link target) :
    fs.LinkFreeBelow root := by
  intro names target hget
  by_cases hnil : root ++ names = []
  · rw [hnil, get?_nil] at hget
    cases hget
  · exact h _ (mem_entries_of_get? hnil hget) (List.prefix_append root names) target rfl

/-- Below a location without links, names arrive where they are written. -/
theorem Arrives.eq_append {fs : FileSystem} {root reached : Location} {names : List Name}
    (hlinks : fs.LinkFreeBelow root) (h : fs.Arrives root (names.map .normal) reached) :
    reached = root ++ names := by
  induction names generalizing root with
  | nil =>
      cases h
      rw [List.append_nil]
  | cons name names ih =>
      rw [List.append_cons]
      cases h with
      | down hget tail =>
          apply ih _ tail
          intro more target
          rw [List.append_assoc]
          exact hlinks _ target
      | along hget tail => exact absurd hget (hlinks [name] _)

/-- Directories, files and links are still there, the bytes of files aside, and no link is new. -/
structure Develops (fs later : FileSystem) : Prop extends Retains fs later where
  link_iff : ∀ location target,
    later.get? location = some (.link target) ↔ fs.get? location = some (.link target)

namespace Develops

variable {fs later after : FileSystem}

theorem refl (fs : FileSystem) : fs.Develops fs where
  workingDir := rfl
  directory := fun _ h => h
  file := fun _ bytes h => ⟨bytes, h⟩
  link_iff := fun _ _ => Iff.rfl

/-- What is missing later was missing before. -/
theorem get?_none (h : fs.Develops later) {location : Location}
    (hnone : later.get? location = none) : fs.get? location = none := by
  cases hget : fs.get? location with
  | none => rfl
  | some entry =>
      cases entry with
      | directory =>
          rw [h.directory location hget] at hnone
          cases hnone
      | file bytes =>
          obtain ⟨held, hheld⟩ := h.file location bytes hget
          rw [hheld] at hnone
          cases hnone
      | link target =>
          rw [(h.link_iff location target).mpr hget] at hnone
          cases hnone

/-- What is a directory later was one before, or was missing. -/
theorem get?_directory (h : fs.Develops later) {location : Location}
    (hdirectory : later.get? location = some .directory) :
    fs.get? location = none ∨ fs.get? location = some .directory := by
  cases hget : fs.get? location with
  | none => exact Or.inl rfl
  | some entry =>
      cases entry with
      | directory => exact Or.inr rfl
      | file bytes =>
          obtain ⟨held, hheld⟩ := h.file location bytes hget
          rw [hheld] at hdirectory
          cases hdirectory
      | link target =>
          rw [(h.link_iff location target).mpr hget] at hdirectory
          cases hdirectory

theorem addsDirectories (h : fs.Develops later) (hadds : later.AddsDirectories after) :
    fs.Develops after where
  workingDir := hadds.workingDir.trans h.workingDir
  directory := fun location hl => hadds.toExtends.keeps location _ (h.directory location hl)
  file := by
    intro location bytes hl
    obtain ⟨held, hheld⟩ := h.file location bytes hl
    exact ⟨held, hadds.toExtends.keeps location _ hheld⟩
  link_iff := by
    intro location target
    rw [← h.link_iff]
    constructor
    · intro hl
      rcases hadds.entry location with hsame | ⟨-, hnew⟩
      · rw [← hsame, hl]
      · rw [hnew] at hl
        cases hl
    · exact hadds.toExtends.keeps location _

/-- A file may be put where neither a directory nor a link is. -/
theorem put_file (h : fs.Develops later) {location : Location} (hne : location ≠ [])
    (hdirectory : later.get? location ≠ some .directory)
    (hlink : ∀ target, later.get? location ≠ some (.link target)) (bytes : List UInt8) :
    fs.Develops (later.put location (.file bytes)) where
  workingDir := h.workingDir
  directory := by
    intro other hother
    have hlater := h.directory other hother
    rw [get?_put_of_ne later hne]
    · exact hlater
    · rintro rfl
      exact hdirectory hlater
  file := by
    intro other held hother
    rw [get?_put later hne]
    split
    · exact ⟨bytes, rfl⟩
    · exact h.file other held hother
  link_iff := by
    intro other target
    rw [← h.link_iff, get?_put later hne]
    split
    · rename_i heq
      rw [heq]
      exact iff_of_false (by simp) (hlink target)
    · exact Iff.rfl

end Develops

section Soundness

variable {fs later : FileSystem} {back : List Text} {place : Place}

/-- The place is found by the pieces that are left from where the moves arrive; or no piece is left
and the place is no directory. -/
def FoundFrom (fs later : FileSystem) (back : List Text) (place : Place) (location : Location)
    (moves : List Component) : Prop :=
  (∃ reached links, fs.Arrives location moves reached ∧
    later.follow links reached back = .ok place) ∨ back = [] ∧ place.entry? ≠ some .directory

theorem FoundFrom.imp {location other : Location} {moves others : List Component}
    (hstep : ∀ reached, fs.Arrives location moves reached → fs.Arrives other others reached)
    (h : FoundFrom fs later back place location moves) :
    FoundFrom fs later back place other others := by
  rcases h with ⟨reached, links, harrives, hfollow⟩ | hend
  · exact Or.inl ⟨reached, links, hstep reached harrives, hfollow⟩
  · exact Or.inr hend

/-- Behind a file there is no piece. -/
theorem nil_of_followPieces_file {onLink : Location → Path → List Text → Except Error Place}
    {location : Location} {bytes : List UInt8} {pieces : List Text}
    (hget : fs.get? location = some (.file bytes))
    (h : fs.followPieces onLink location pieces = .ok place) :
    pieces = [] ∧ place = ⟨location, some (.file bytes)⟩ := by
  cases pieces with
  | nil =>
      rw [followPieces, hget] at h
      exact ⟨rfl, (Except.ok.inj h).symm⟩
  | cons piece rest =>
      have hdirectory := get?_of_followPieces_cons h
      rw [hget] at hdirectory
      cases hdirectory

/-- Pieces lead where their moves arrive when links do. -/
theorem foundFrom_of_followPieces (hdevelops : fs.Develops later)
    {onLink : Location → Path → List Text → Except Error Place} {links : Nat}
    (hsame : later.follow links = later.followPieces onLink)
    (hlink : ∀ location target front, onLink location target (front ++ back) = .ok place →
      FoundFrom fs later back place (target.start location)
        (target.moves ++ front.filterMap ofPiece?))
    {location : Location} {front : List Text}
    (h : later.followPieces onLink location (front ++ back) = .ok place) :
    FoundFrom fs later back place location (front.filterMap ofPiece?) := by
  induction front generalizing location with
  | nil => exact Or.inl ⟨location, links, .here location, hsame ▸ h⟩
  | cons piece front ih =>
      have hdir := get?_of_followPieces_cons h
      rw [List.cons_append, followPieces_cons hdir] at h
      cases hpiece : ofPiece? piece with
      | none =>
          rw [hpiece] at h
          rw [List.filterMap_cons_none hpiece]
          exact ih h
      | some c =>
          rw [hpiece] at h
          rw [List.filterMap_cons_some hpiece]
          rcases (ofPiece?_eq_some hpiece).2.2 with rfl | rfl
          · exact (ih h).imp fun _ => .up
          · simp only [reduceCtorEq, if_false] at h
            split at h
            · cases h
            · split at h
              · split at h
                · rename_i hnil
                  cases h
                  exact Or.inr ⟨(List.append_eq_nil_iff.mp hnil).2, by simp⟩
                · cases h
              · rename_i target hget
                have hget' := (hdevelops.link_iff _ _).mp hget
                exact (hlink _ _ _ h).imp fun _ => .along hget'
              · rename_i entry hnolink hget
                cases entry with
                | link target => exact absurd rfl (hnolink target)
                | directory =>
                    have hget' := hdevelops.get?_directory hget
                    exact (ih h).imp fun _ => .down hget'
                | file bytes =>
                    obtain ⟨hnil, hplace⟩ := nil_of_followPieces_file hget h
                    refine Or.inr ⟨(List.append_eq_nil_iff.mp hnil).2, ?_⟩
                    rw [hplace]
                    simp

/-- What a later file system finds is found from where the first moves arrive. -/
theorem foundFrom_of_follow (hdevelops : fs.Develops later) {links : Nat} {location : Location}
    {front : List Text} (h : later.follow links location (front ++ back) = .ok place) :
    FoundFrom fs later back place location (front.filterMap ofPiece?) := by
  induction links generalizing location front with
  | zero =>
      have hsame : later.follow 0 = later.followPieces fun _ _ _ => .error .tooManyLinks := rfl
      refine foundFrom_of_followPieces hdevelops hsame ?_ h
      intro location target front hlink
      cases hlink
  | succ links ih =>
      have hsame : later.follow (links + 1) = later.followPieces fun location target rest =>
          later.follow links (target.start location) (target.pieces ++ rest) := rfl
      refine foundFrom_of_followPieces hdevelops hsame ?_ h
      intro location target front hlink
      rw [← List.append_assoc] at hlink
      have hnext := ih hlink
      rw [List.filterMap_append] at hnext
      exact hnext

theorem follow_nil (fs : FileSystem) (links : Nat) (location : Location) :
    fs.follow links location [] = .ok ⟨location, fs.get? location⟩ := by
  cases links <;> rfl

/-- The directory that holds the last piece is where the pieces before it arrive. -/
theorem arrives_of_directoryOf (hdevelops : fs.Develops later) {path : Path} {before : List Text}
    {holder : Location} (h : later.directoryOf path before = .ok holder) :
    fs.Arrives (path.start fs.workingDir) (before.filterMap ofPiece?) holder := by
  have hfollow := follow_of_directoryOf h
  rw [hdevelops.workingDir, ← List.append_nil before] at hfollow
  rcases foundFrom_of_follow hdevelops hfollow with ⟨reached, links, harrives, hreached⟩ | ⟨-, hend⟩
  · rw [follow_nil, Except.ok.injEq, Place.mk.injEq] at hreached
    rw [← hreached.1]
    exact harrives
  · exact absurd rfl hend

end Soundness

section Directories

variable {fs later : FileSystem} {location : Location}

/-- A new directory is where its path arrives. -/
theorem arrives_of_makeDirectory (hdevelops : fs.Develops later) {path : Path} {made : FileSystem}
    (h : later.makeDirectory path = .ok made) (hnew : made.get? location ≠ later.get? location) :
    fs.Arrives (path.start fs.workingDir) path.moves location := by
  obtain ⟨-, before, last, holder, hsplit, hholder, hlast, -, hnone, rfl⟩ := makeDirectory_ok h
  have hlocation : location = holder ++ [last] := by
    by_contra hne
    exact hnew (get?_put_of_ne later (by simp) .directory hne)
  rw [hlocation, pieces_of_splitLast? hsplit, hlast]
  apply (arrives_of_directoryOf hdevelops hholder).trans
  exact .down (Or.inl (hdevelops.get?_none hnone)) (.here _)

/-- The directories made on the way to a path are where its first moves arrive. -/
theorem arrives_of_makeDirectoriesFrom (hdevelops : fs.Develops later) {path : Path}
    {parts : List Component} (hparts : path.components = parts.reverse)
    (hnew : (later.makeDirectoriesFrom path parts).fs.get? location ≠ later.get? location) :
    ∃ front, front <+: path.moves ∧ fs.Arrives (path.start fs.workingDir) front location := by
  obtain ⟨front, now, made, hleading, hne, hadds, hmake, hmade⟩ :=
    makesAt_of_makeDirectoriesFrom hparts hnew
  have harrives := arrives_of_makeDirectory (hdevelops.addsDirectories hadds) hmake hmade
  rw [start_of_leading _ hleading hne] at harrives
  exact ⟨front.moves, moves_of_leading hleading, harrives⟩

theorem arrives_of_makeDirectories (hdevelops : fs.Develops later) {path : Path}
    (hnew : (later.makeDirectories path).fs.get? location ≠ later.get? location) :
    ∃ front, front <+: path.moves ∧ fs.Arrives (path.start fs.workingDir) front location :=
  arrives_of_makeDirectoriesFrom hdevelops (List.reverse_reverse _).symm hnew

/-- The directories made to hold an entry are where the first moves of its path arrive. -/
theorem arrives_of_makeParents (hdevelops : fs.Develops later) {path : Path}
    (hnew : (later.makeParents path).fs.get? location ≠ later.get? location) :
    ∃ front, front <+: path.moves ∧ fs.Arrives (path.start fs.workingDir) front location := by
  rw [makeParents] at hnew
  split at hnew
  · rename_i above habove
    obtain ⟨hmoves, hstart⟩ := moves_parent? fs.workingDir habove
    obtain ⟨front, hfront, harrives⟩ := arrives_of_makeDirectories hdevelops hnew
    exact ⟨front, hfront.trans hmoves, hstart ▸ harrives⟩
  · exact absurd rfl hnew

end Directories

end TreeFold.FileSystem
