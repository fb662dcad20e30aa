import Mathlib.Data.List.Induction
import TreeFold.Proofs.Path.Order
import TreeFold.Selection

/-!
# First occurrences

Of paths with the same components the first is kept. Where directories are taken in ascending order,
each with the files below it in ascending order, the files that are kept are in ascending order too:
a directory below an earlier one brings nothing new, and any other directory comes behind all that
has been kept.
-/

namespace TreeFold.Selection

open TreeFold.Path

/-- Take a path in, unless one with the same components is kept already. -/
def keep (kept : List Path) (path : Path) : List Path :=
  if kept.any path.same then kept else kept ++ [path]

variable {kept paths more : List Path} {path : Path}

theorem distinct_append (paths more : List Path) :
    distinct (paths ++ more) = more.foldl keep (distinct paths) :=
  List.foldl_append

theorem any_same_iff : kept.any path.same = true ↔
    ∃ held ∈ kept, path.components = held.components := by
  simp [Path.same]

/-- What is kept already is not taken in again. -/
theorem foldl_keep_of_known
    (h : ∀ path ∈ more, ∃ held ∈ kept, path.components = held.components) :
    more.foldl keep kept = kept := by
  induction more with
  | nil => rfl
  | cons path more ih =>
      obtain ⟨hpath, hmore⟩ := List.forall_mem_cons.mp h
      rw [List.foldl_cons, keep, if_pos (any_same_iff.mpr hpath)]
      exact ih hmore

/-- Paths that differ from all that is kept, and from each other, are all taken in. -/
theorem foldl_keep_of_new
    (h : (kept ++ more).Pairwise fun a b => a.components ≠ b.components) :
    more.foldl keep kept = kept ++ more := by
  induction more generalizing kept with
  | nil => rw [List.foldl_nil, List.append_nil]
  | cons path more ih =>
      have hnew : ¬kept.any path.same = true := by
        rw [any_same_iff]
        rintro ⟨held, hheld, hsame⟩
        exact (List.pairwise_append.mp h).2.2 held hheld path List.mem_cons_self hsame.symm
      rw [List.append_cons] at h ⊢
      rw [List.foldl_cons, keep, if_neg hnew]
      exact ih h

/-- Of each path one with the same components is kept. -/
theorem exists_mem_foldl_keep (h : ∃ held ∈ kept ++ paths, path.components = held.components) :
    ∃ held ∈ paths.foldl keep kept, path.components = held.components := by
  induction paths generalizing kept with
  | nil => rwa [List.append_nil] at h
  | cons first paths ih =>
      rw [List.foldl_cons, keep]
      apply ih
      obtain ⟨held, hheld, hsame⟩ := h
      split
      · rename_i hknown
        obtain ⟨found, hfound, hfirst⟩ := any_same_iff.mp hknown
        rw [List.mem_append, List.mem_cons] at hheld
        rcases hheld with hkept | rfl | hrest
        · exact ⟨held, List.mem_append_left _ hkept, hsame⟩
        · exact ⟨found, List.mem_append_left _ hfound, hsame.trans hfirst⟩
        · exact ⟨held, List.mem_append_right _ hrest, hsame⟩
      · exact ⟨held, by rwa [List.append_cons] at hheld, hsame⟩

theorem mem_of_mem_foldl_keep (h : path ∈ paths.foldl keep kept) : path ∈ kept ++ paths := by
  induction paths generalizing kept with
  | nil => rwa [List.append_nil]
  | cons first paths ih =>
      rw [List.foldl_cons, keep] at h
      split at h
      · rcases List.mem_append.mp (ih h) with hkept | hrest
        · exact List.mem_append_left _ hkept
        · exact List.mem_append_right _ (List.mem_cons_of_mem _ hrest)
      · rw [List.append_cons]
        exact ih h

theorem exists_mem_distinct (h : path ∈ paths) :
    ∃ held ∈ distinct paths, path.components = held.components :=
  exists_mem_foldl_keep ⟨path, h, rfl⟩

theorem mem_of_mem_distinct (h : path ∈ distinct paths) : path ∈ paths :=
  mem_of_mem_foldl_keep h

/-- Where only equal paths have the same components, every path is kept. -/
theorem mem_distinct_iff
    (h : ∀ a ∈ paths, ∀ b ∈ paths, a.components = b.components → a = b) :
    path ∈ distinct paths ↔ path ∈ paths := by
  refine ⟨mem_of_mem_distinct, fun hpath => ?_⟩
  obtain ⟨held, hheld, hsame⟩ := exists_mem_distinct hpath
  rwa [h path hpath held (mem_of_mem_distinct hheld) hsame]

/-- The files of directories in ascending order are kept in ascending order, when those of a
directory below another are files of the other one too. -/
theorem pairwise_distinct_flatMap {directories : List Path} {files : Path → List Path}
    (hdirectories : directories.Pairwise Before)
    (hfiles : ∀ directory ∈ directories, (files directory).Pairwise Before)
    (hbelow : ∀ directory ∈ directories, ∀ file ∈ files directory,
      directory.components <+: file.components)
    (hnested : ∀ outer ∈ directories, ∀ inner ∈ directories,
      outer.components <+: inner.components → files inner ⊆ files outer) :
    (distinct (directories.flatMap files)).Pairwise Before := by
  induction directories using List.reverseRecOn with
  | nil => exact List.Pairwise.nil
  | append_singleton earlier last ih =>
      obtain ⟨hearlier, -, hbefore⟩ := List.pairwise_append.mp hdirectories
      have hinto : ∀ directory ∈ earlier, directory ∈ earlier ++ [last] := fun _ h =>
        List.mem_append_left _ h
      have hlast : last ∈ earlier ++ [last] := List.mem_append_right _ List.mem_cons_self
      have hkept : (distinct (earlier.flatMap files)).Pairwise Before :=
        ih hearlier (fun directory h => hfiles directory (hinto directory h))
          (fun directory h => hbelow directory (hinto directory h))
          fun outer h inner h' => hnested outer (hinto outer h) inner (hinto inner h')
      rw [List.flatMap_append, distinct_append, List.flatMap_singleton]
      by_cases hinside : ∃ outer ∈ earlier, outer.components <+: last.components
      · -- The last directory lies below an earlier one, whose files are kept.
        obtain ⟨outer, houter, hstart⟩ := hinside
        rw [foldl_keep_of_known]
        · exact hkept
        · intro file hfile
          exact exists_mem_distinct (List.mem_flatMap.mpr
            ⟨outer, houter, hnested outer (hinto outer houter) last hlast hstart hfile⟩)
      · -- The last directory comes behind all that lies below earlier ones.
        have hall : (distinct (earlier.flatMap files) ++ files last).Pairwise Before := by
          refine List.pairwise_append.mpr ⟨hkept, hfiles last hlast, ?_⟩
          intro file hfile other hother
          obtain ⟨directory, hdirectory, hmem⟩ :=
            List.mem_flatMap.mp (mem_of_mem_distinct hfile)
          exact (hbefore directory hdirectory last List.mem_cons_self).below
            (fun hstart => hinside ⟨directory, hdirectory, hstart⟩)
            (hbelow directory (hinto directory hdirectory) file hmem)
            (hbelow last hlast other hother)
        rw [foldl_keep_of_new (hall.imp fun h => h.components_ne)]
        exact hall

end TreeFold.Selection
