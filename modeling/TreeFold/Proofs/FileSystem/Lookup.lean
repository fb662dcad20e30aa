import TreeFold.Proofs.FileSystem.Resolution

/-!
# Lookups while entries are added

As long as directories and links stay and files are replaced by files only, what was found is found
again, at the same location and through the same links. All names that a search looks for behind the
same pieces are looked for in one directory, whatever links lead to it.
-/

namespace TreeFold.FileSystem

open Component TreeFold.Path

/-- Directories, files and links are still there in the later file system, the bytes of files
aside. Anything may be new, links too. -/
structure Persists (fs later : FileSystem) : Prop extends Retains fs later where
  link : ∀ location target, fs.get? location = some (.link target) →
    later.get? location = some (.link target)

namespace Persists

variable {fs later after : FileSystem}

theorem refl (fs : FileSystem) : fs.Persists fs :=
  ⟨Retains.refl fs, fun _ _ h => h⟩

theorem trans (h : fs.Persists later) (hnext : later.Persists after) : fs.Persists after :=
  ⟨h.toRetains.trans hnext.toRetains,
    fun location target hget => hnext.link location target (h.link location target hget)⟩

instance : Trans Persists Persists Persists :=
  ⟨trans⟩

/-- No location is left empty. -/
theorem exists_get? (h : fs.Persists later) {location : Location} {entry : Entry}
    (hget : fs.get? location = some entry) : ∃ held, later.get? location = some held := by
  cases entry with
  | directory => exact ⟨.directory, h.directory location hget⟩
  | file bytes =>
      obtain ⟨held, hheld⟩ := h.file location bytes hget
      exact ⟨.file held, hheld⟩
  | link target => exact ⟨.link target, h.link location target hget⟩

end Persists

/-- What keeps its directories and files keeps everything when there are no links. -/
theorem Retains.persists {fs later : FileSystem} (h : fs.Retains later) (hfs : fs.LinkFree) :
    fs.Persists later :=
  ⟨h, fun location target hget => absurd hget (hfs location target)⟩

theorem Extends.persists {fs later : FileSystem} (h : fs.Extends later) : fs.Persists later :=
  ⟨h.retains, fun location _ hget => h.keeps location _ hget⟩

section Again

variable {fs later : FileSystem} {location found : Location} {pieces : List Text} {entry : Entry}
  {held? : Option Entry}

/-- A place is found again, when what is found behind a link is. At a place without an entry no link
may be new, since it would lead on. -/
theorem followPieces_persists (hlater : fs.Persists later)
    (hnew : held?.isSome ∨ ∀ target, later.get? found ≠ some (.link target))
    {onLink onLink' : Location → Path → List Text → Except Error Place}
    (hlink : ∀ location target rest, onLink location target rest = .ok ⟨found, held?⟩ →
      onLink' location target rest = .ok ⟨found, later.get? found⟩)
    (h : fs.followPieces onLink location pieces = .ok ⟨found, held?⟩) :
    later.followPieces onLink' location pieces = .ok ⟨found, later.get? found⟩ := by
  induction pieces generalizing location with
  | nil =>
      rw [followPieces, Except.ok.injEq, Place.mk.injEq] at h
      rw [followPieces, h.1]
  | cons piece rest ih =>
      have hdir := get?_of_followPieces_cons h
      rw [followPieces_cons hdir] at h
      rw [followPieces_cons (hlater.directory location hdir)]
      cases hpiece : ofPiece? piece with
      | none =>
          rw [hpiece] at h
          exact ih h
      | some c =>
          rw [hpiece] at h
          rcases (ofPiece?_eq_some hpiece).2.2 with rfl | rfl
          · exact ih h
          · simp only [reduceCtorEq, if_false] at h ⊢
            split at h
            · cases h
            rename_i hfits
            rw [if_neg hfits]
            cases hget : fs.get? (location ++ [piece]) with
            | none =>
                rw [hget] at h
                dsimp only at h
                split at h
                · rename_i hrest
                  cases h
                  rw [hrest]
                  cases hlast : later.get? (location ++ [piece]) with
                  | none => rfl
                  | some held =>
                      cases held with
                      | link target => exact absurd hlast (hnew.resolve_left (by simp) target)
                      | directory | file bytes => rw [followPieces, hlast]
                · cases h
            | some held =>
                rw [hget] at h
                cases held with
                | directory =>
                    rw [hlater.directory _ hget]
                    exact ih h
                | file bytes =>
                    obtain ⟨kept, hkept⟩ := hlater.file _ bytes hget
                    rw [hkept]
                    exact ih h
                | link target =>
                    rw [hlater.link _ target hget]
                    exact hlink _ _ _ h

/-- The places that are found through links are found through the same links again. -/
theorem follow_persists (hlater : fs.Persists later)
    (hnew : held?.isSome ∨ ∀ target, later.get? found ≠ some (.link target)) {links : Nat}
    (h : fs.follow links location pieces = .ok ⟨found, held?⟩) :
    later.follow links location pieces = .ok ⟨found, later.get? found⟩ := by
  induction links generalizing location pieces with
  | zero =>
      refine followPieces_persists hlater hnew ?_ h
      intro location target rest hlink
      cases hlink
  | succ links ih =>
      refine followPieces_persists hlater hnew ?_ h
      intro location target rest hlink
      exact ih hlink

theorem place_persists (hlater : fs.Persists later)
    (hnew : held?.isSome ∨ ∀ target, later.get? found ≠ some (.link target)) {path : Path}
    (h : fs.place path = .ok ⟨found, held?⟩) :
    later.place path = .ok ⟨found, later.get? found⟩ := by
  rw [place_eq] at h ⊢
  split at h
  · cases h
  · rw [hlater.workingDir]
    exact follow_persists hlater hnew h

/-- An entry that is found stands where it is found. -/
theorem get?_of_follow {links : Nat}
    (h : fs.follow links location pieces = .ok ⟨found, some entry⟩) :
    fs.get? found = some entry := by
  have hagain := follow_persists (Persists.refl fs) (Or.inl rfl) h
  rw [h, Except.ok.injEq, Place.mk.injEq] at hagain
  exact hagain.2.symm

theorem get?_of_place {path : Path} (h : fs.place path = .ok ⟨found, some entry⟩) :
    fs.get? found = some entry := by
  rw [place_eq] at h
  split at h
  · cases h
  · exact get?_of_follow h

end Again

section Holder

variable {fs : FileSystem}

/-- The search looks for the entry of its first piece in the directory. -/
def LooksIn (fs : FileSystem) (holder : Location) (find : List Text → Except Error Place) : Prop :=
  ∀ name rest found entry, IsEntryName name → find (name :: rest) = .ok ⟨found, some entry⟩ →
    ∃ held, fs.get? (holder ++ [name]) = some held

theorem looksIn_followPieces (onLink : Location → Path → List Text → Except Error Place)
    (location : Location) : fs.LooksIn location (fs.followPieces onLink location) := by
  intro name rest found entry hname h
  rw [followPieces_cons (get?_of_followPieces_cons h), hname.1] at h
  simp only [reduceCtorEq, if_false] at h
  split at h
  · cases h
  · cases hget : fs.get? (location ++ [name]) with
    | none =>
        rw [hget] at h
        dsimp only at h
        split at h <;> cases h
    | some held => exact ⟨held, rfl⟩

/-- A search behind pieces goes on in one directory, when a search behind a link does. -/
theorem exists_looksIn_followPieces
    {onLink : Location → Path → List Text → Except Error Place}
    (hlink : ∀ location target front,
      ∃ holder, fs.LooksIn holder fun back => onLink location target (front ++ back))
    (location : Location) (front : List Text) :
    ∃ holder, fs.LooksIn holder fun back => fs.followPieces onLink location (front ++ back) := by
  induction front generalizing location with
  | nil => exact ⟨location, looksIn_followPieces onLink location⟩
  | cons piece front ih =>
      by_cases hdir : fs.get? location = some .directory
      · simp only [List.cons_append, followPieces_cons hdir]
        cases hpiece : ofPiece? piece with
        | none => exact ih location
        | some c =>
            rcases (ofPiece?_eq_some hpiece).2.2 with rfl | rfl
            · exact ih location.dropLast
            · simp only [reduceCtorEq, if_false]
              split
              · exact ⟨[], fun _ _ _ _ _ h => by cases h⟩
              · cases hget : fs.get? (location ++ [piece]) with
                | none => exact ⟨[], fun _ _ _ _ _ h => by simp at h⟩
                | some held =>
                    cases held with
                    | directory => exact ih (location ++ [piece])
                    | file bytes => exact ih (location ++ [piece])
                    | link target => exact hlink location target front
      · refine ⟨[], fun _ _ _ _ _ h => ?_⟩
        exact absurd (get?_of_followPieces_cons h) hdir

/-- Behind the same pieces, all names are looked for in the same directory. -/
theorem exists_looksIn (fs : FileSystem) (links : Nat) (location : Location) (front : List Text) :
    ∃ holder, fs.LooksIn holder fun back => fs.follow links location (front ++ back) := by
  induction links generalizing location front with
  | zero =>
      refine exists_looksIn_followPieces ?_ location front
      intro location target front
      exact ⟨[], fun _ _ _ _ _ h => by cases h⟩
  | succ links ih =>
      refine exists_looksIn_followPieces ?_ location front
      intro location target front
      obtain ⟨holder, hholder⟩ := ih (if target.isAbsolute then [] else location)
        (target.pieces ++ front)
      refine ⟨holder, ?_⟩
      simpa only [List.append_assoc] using hholder

end Holder

end TreeFold.FileSystem
