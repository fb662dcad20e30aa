import TreeFold.Proofs.FileSystem.Children
import TreeFold.Proofs.FileSystem.Tree
import TreeFold.Proofs.FileSystem.Writes

/-!
# Reading back what was written

In a tree a search ends at an entry that is no link, or at a new name in a directory. So writing
turns trees into trees and leaves all directories and links as they are, and what was written is
read back by its path, whatever links lead there, until another write ends at the same place.
-/

namespace TreeFold.FileSystem

open Component TreeFold.Path Text

variable {fs after : FileSystem} {path : Path} {location : Location} {pieces : List Text}
  {place : Place} {text : Text} {bytes : List UInt8} {writes : List (Path × Text)}

section Ends

/-- The place holds an entry that leads no further, or is a new name in a directory. -/
inductive Ends (fs : FileSystem) : Place → Prop
  | held {location : Location} {entry : Entry} : fs.get? location = some entry →
      (∀ target, entry ≠ .link target) → Ends fs ⟨location, some entry⟩
  | new {holder : Location} {name : Name} : fs.get? holder = some .directory → IsEntryName name →
      fs.get? (holder ++ [name]) = none → Ends fs ⟨holder ++ [name], none⟩

theorem ends_directory (h : fs.get? location = some .directory) :
    fs.Ends ⟨location, fs.get? location⟩ := by
  rw [h]
  exact .held h fun target => Entry.noConfusion

/-- Stepping up from a directory of a tree leads to a directory, never to a link. -/
theorem IsTree.ends_followPieces (h : fs.IsTree)
    {onLink : Location → Path → List Text → Except Error Place}
    (hlink : ∀ location target rest, fs.get? location = some .directory →
      (∀ piece ∈ rest, '/' ∉ piece) → onLink location target rest = .ok place → fs.Ends place)
    (hpieces : ∀ piece ∈ pieces, '/' ∉ piece) (hstart : fs.Ends ⟨location, fs.get? location⟩)
    (hfollow : fs.followPieces onLink location pieces = .ok place) : fs.Ends place := by
  induction pieces generalizing location with
  | nil =>
      rw [followPieces] at hfollow
      cases hfollow
      exact hstart
  | cons piece rest ih =>
      have hdir := get?_of_followPieces_cons hfollow
      obtain ⟨hpiece, hrest⟩ := List.forall_mem_cons.mp hpieces
      rw [followPieces_cons hdir] at hfollow
      cases hc : ofPiece? piece with
      | none =>
          rw [hc] at hfollow
          exact ih hrest hstart hfollow
      | some c =>
          rw [hc] at hfollow
          rcases (ofPiece?_eq_some hc).2.2 with rfl | rfl
          · exact ih hrest (ends_directory (h.get?_dropLast hdir)) hfollow
          · simp only [reduceCtorEq, if_false] at hfollow
            split at hfollow
            · cases hfollow
            split at hfollow
            · rename_i hnone
              split at hfollow
              · cases hfollow
                exact .new hdir ⟨hc, hpiece⟩ hnone
              · cases hfollow
            · exact hlink _ _ _ hdir hrest hfollow
            · rename_i entry hentry hget
              refine ih hrest ?_ hfollow
              rw [hget]
              exact .held hget hentry

theorem IsTree.ends_follow (h : fs.IsTree) {links : Nat} (hpieces : ∀ piece ∈ pieces, '/' ∉ piece)
    (hdir : fs.get? location = some .directory)
    (hfollow : fs.follow links location pieces = .ok place) : fs.Ends place := by
  induction links generalizing location pieces with
  | zero =>
      refine h.ends_followPieces ?_ hpieces (ends_directory hdir) hfollow
      intro location target rest _ _ hlink
      cases hlink
  | succ links ih =>
      refine h.ends_followPieces ?_ hpieces (ends_directory hdir) hfollow
      intro location target rest hlocation hrest hlink
      refine ih (fun piece hpiece => ?_) ?_ hlink
      · rcases List.mem_append.mp hpiece with hpiece | hpiece
        · exact slash_not_mem_of_mem_splitOn hpiece
        · exact hrest piece hpiece
      · split
        · rfl
        · exact hlocation

theorem IsTree.ends_place (h : fs.IsTree) (hplace : fs.place path = .ok place) :
    fs.Ends place := by
  rw [place_eq] at hplace
  split at hplace
  · cases hplace
  · exact h.ends_follow (fun piece hpiece => slash_not_mem_of_mem_splitOn hpiece)
      (h.get?_start path) hplace

end Ends

section Write

/-- A place that holds no directory can take a file. -/
theorem IsTree.put_ends (h : fs.IsTree) (hends : fs.Ends place)
    (hdirectory : place.entry? ≠ some .directory) (bytes : List UInt8) :
    place.location ≠ [] ∧ fs.Persists (fs.put place.location (.file bytes)) ∧
      (fs.put place.location (.file bytes)).IsTree := by
  have hput : ∀ holder name, fs.get? holder = some .directory → IsEntryName name →
      fs.get? (holder ++ [name]) ≠ some .directory →
      (∀ target, fs.get? (holder ++ [name]) ≠ some (.link target)) →
      fs.Persists (fs.put (holder ++ [name]) (.file bytes)) ∧
        (fs.put (holder ++ [name]) (.file bytes)).IsTree := by
    intro holder name hholder hname hnone hlink
    have hnil : holder ++ [name] ≠ [] := by simp
    refine ⟨⟨Retains.put_file hnil hnone bytes, fun other target hget => ?_⟩,
      h.put hholder hname hnone _⟩
    rw [get?_put_of_ne fs hnil]
    · exact hget
    · rintro rfl
      exact hlink target hget
  cases hends with
  | new hholder hname hnone =>
      exact ⟨by simp, hput _ _ hholder hname (by simp [hnone]) (by simp [hnone])⟩
  | @held location entry hget hlink =>
      rcases List.eq_nil_or_concat location with rfl | ⟨holder, name, rfl⟩
      · exact absurd hget.symm hdirectory
      · rw [List.concat_eq_append] at hget ⊢
        refine ⟨by simp, hput _ _ (h.parent holder name _ hget)
          (h.isEntryName _ _ hget name (by simp)) (hget ▸ hdirectory) fun target htarget => ?_⟩
        exact hlink target (Option.some.inj (hget.symm.trans htarget))

/-- A write that succeeds ends at a place where its text is read back, and changes no other file. -/
theorem IsTree.exists_of_overwrite (h : fs.IsTree)
    (hwrite : fs.overwrite path text = ⟨none, after⟩) :
    fs.Persists after ∧ after.IsTree ∧ ∃ location,
      after.stat path = .ok (location, .file (encodeUtf8 text)) ∧
        ∀ other bytes, other ≠ location → fs.get? other = some (.file bytes) →
          after.get? other = some (.file bytes) := by
  obtain ⟨place, hplace, hdirectory, rfl⟩ := exists_place_of_overwrite hwrite
  have hadds := addsDirectories_makeParents fs path
  have hmade := h.makeParents path
  obtain ⟨hnil, hpersists, htree⟩ :=
    hmade.put_ends (hmade.ends_place hplace) hdirectory (encodeUtf8 text)
  refine ⟨hadds.toExtends.persists.trans hpersists, htree, place.location, ?_,
    fun other bytes hother hget => ?_⟩
  · have hnow := get?_put_self (fs.makeParents path).fs hnil (.file (encodeUtf8 text))
    rw [stat_eq, place_persists hpersists (Or.inr fun target => by simp [hnow]) hplace, hnow]
  · rw [get?_put_of_ne _ hnil _ hother]
    exact hadds.toExtends.keeps other _ hget

/-- A write, whether it succeeds or not, turns a tree into a tree. -/
theorem IsTree.overwrite (h : fs.IsTree) (path : Path) (text : Text) :
    (fs.overwrite path text).fs.IsTree := by
  rcases hwrite : fs.overwrite path text with ⟨_ | e, after⟩
  · exact (h.exists_of_overwrite hwrite).2.1
  · rw [overwrite_some hwrite]
    exact h.makeParents path

theorem IsTree.persists_overwrite (h : fs.IsTree) (path : Path) (text : Text) :
    fs.Persists (fs.overwrite path text).fs := by
  rcases hwrite : fs.overwrite path text with ⟨_ | e, after⟩
  · exact (h.exists_of_overwrite hwrite).1
  · rw [overwrite_some hwrite]
    exact (addsDirectories_makeParents fs path).toExtends.persists

/-- A write lists no location twice. -/
theorem Unambiguous.overwrite (h : fs.Unambiguous) (path : Path) (text : Text) :
    (fs.overwrite path text).fs.Unambiguous := by
  have hmade : (fs.makeParents path).fs.Unambiguous := by
    refine makeParents_keeps (fun h hmake => ?_) h path
    obtain ⟨-, before, last, holder, -, -, -, -, -, rfl⟩ := makeDirectory_ok hmake
    exact h.put _ _
  rcases hwrite : fs.overwrite path text with ⟨_ | e, after⟩
  · obtain ⟨place, -, -, rfl⟩ := exists_place_of_overwrite hwrite
    exact hmade.put _ _
  · rw [overwrite_some hwrite]
    exact hmade

end Write

section Attempt

theorem IsTree.attempt (h : fs.IsTree) (writes : List (Path × Text)) :
    (fs.attempt writes).IsTree := by
  induction writes generalizing fs with
  | nil => exact h
  | cons write rest ih => exact ih (h.overwrite write.1 write.2)

theorem Unambiguous.attempt (h : fs.Unambiguous) (writes : List (Path × Text)) :
    (fs.attempt writes).Unambiguous := by
  induction writes generalizing fs with
  | nil => exact h
  | cons write rest ih => exact ih (h.overwrite write.1 write.2)

theorem IsTree.persists_attempt (h : fs.IsTree) (writes : List (Path × Text)) :
    fs.Persists (fs.attempt writes) := by
  induction writes generalizing fs with
  | nil => exact Persists.refl fs
  | cons write rest ih =>
      exact (h.persists_overwrite write.1 write.2).trans (ih (h.overwrite write.1 write.2))

/-- A file stays as it is when no write ends at its place. -/
theorem IsTree.stat_attempt (h : fs.IsTree) (hstat : fs.stat path = .ok (location, .file bytes))
    (hwrites : ∀ write ∈ fs.succeeding writes,
      (fs.attempt writes).stat write.1 ≠ (fs.attempt writes).stat path) :
    (fs.attempt writes).stat path = .ok (location, .file bytes) := by
  induction writes generalizing fs with
  | nil => exact hstat
  | cons write rest ih =>
      obtain ⟨other, text⟩ := write
      have hget := get?_of_stat hstat
      rw [attempt_cons] at hwrites ⊢
      rcases hwrite : fs.overwrite other text with ⟨_ | e, after⟩
      · obtain ⟨hpersists, htree, reached, hreached, hkept⟩ := h.exists_of_overwrite hwrite
        rw [succeeding_cons_of_none hwrite, hwrite] at hwrites
        obtain ⟨hother, hrest⟩ := List.forall_mem_cons.mp hwrites
        have hne : location ≠ reached := by
          -- Both paths would end at the place to the end.
          rintro rfl
          have hlater := htree.persists_attempt rest
          obtain ⟨held, hheld⟩ := hpersists.file location bytes hget
          obtain ⟨last, hlast⟩ := hlater.file location held hheld
          apply hother
          rw [stat_persists hlater hreached hlast,
            stat_persists (hpersists.trans hlater) hstat hlast]
        have hnow := hkept location bytes hne hget
        exact ih htree (stat_persists hpersists hstat hnow) hrest
      · have hextends := (addsDirectories_makeParents fs other).toExtends
        have hnow := hextends.keeps location _ hget
        have hafter := overwrite_some hwrite
        rw [succeeding_cons_of_some hwrite, hwrite] at hwrites
        subst hafter
        exact ih (h.makeParents other) (stat_persists hextends.persists hstat hnow) hwrites

/-- The last text that is written to a place is read there in the end. -/
theorem IsTree.readBytes_attempt (h : fs.IsTree) {front back : List (Path × Text)}
    (hwrites : fs.succeeding writes = front ++ (path, text) :: back)
    (hlast : ∀ write ∈ back, (fs.attempt writes).stat write.1 ≠ (fs.attempt writes).stat path) :
    (fs.attempt writes).readBytes path = .ok (encodeUtf8 text) := by
  induction writes generalizing fs front with
  | nil => simp at hwrites
  | cons write rest ih =>
      obtain ⟨other, first⟩ := write
      rw [attempt_cons] at hlast ⊢
      have htree := h.overwrite other first
      rcases hwrite : fs.overwrite other first with ⟨_ | e, after⟩
      · rw [succeeding_cons_of_none hwrite] at hwrites
        rw [hwrite] at hlast htree
        cases front with
        | cons write front => exact ih htree (List.cons.inj hwrites).2 hlast
        | nil =>
            obtain ⟨hsame, rfl⟩ := List.cons.inj hwrites
            obtain ⟨rfl, rfl⟩ := Prod.mk.inj hsame
            obtain ⟨-, -, location, hstat, -⟩ := h.exists_of_overwrite hwrite
            exact readBytes_ok_iff.mpr ⟨location, htree.stat_attempt hstat hlast⟩
      · rw [succeeding_cons_of_some hwrite] at hwrites
        rw [hwrite] at hlast htree
        exact ih htree hwrites hlast

end Attempt

end TreeFold.FileSystem
