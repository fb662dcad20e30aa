import TreeFold.Proofs.Walk.Listing

/-!
# What any walk lists

Ignore files, globs and depths only leave things out. Whatever a walk leaves out, each file that it
lists from a directory stands below the directory, where the names on its path lead.
-/

namespace TreeFold.Walker

open TreeFold.Path TreeFold.FileSystem

variable {walker : Walker} {fs : FileSystem} {base start directory path : Path}
  {location : Location} {depth levels : Nat} {chain : Ignore.Chain} {walked : Walked}

/-- Names lead to the entry from a directory and from its location alike. -/
def LedTo (fs : FileSystem) (directory : Path) (location : Location) (names : List Name)
    (walked : Walked) : Prop :=
  walked.path = directory.descendant names ∧ fs.get? (location ++ names) = some walked.entry

theorem exists_ledTo_of_mem_descend (hkeys : fs.Unambiguous)
    (h : walked ∈ walker.descend fs base levels chain directory location depth) :
    ∃ names, names ≠ [] ∧ LedTo fs directory location names walked := by
  induction levels generalizing chain directory location depth with
  | zero => cases h
  | succ levels ih =>
      rw [descend_succ] at h
      split at h
      · cases h
      obtain ⟨⟨name, entry⟩, hchild, hvisit⟩ := List.mem_flatMap.mp h
      have hget := hkeys.mem_children_iff.mp hchild
      have hself : LedTo fs directory location [name] ⟨directory.child name, entry⟩ := ⟨rfl, hget⟩
      rw [visit] at hvisit
      split at hvisit
      · cases hvisit
      split at hvisit
      · split at hvisit
        · cases hvisit
        · rcases List.mem_cons.mp hvisit with rfl | hinside
          · exact ⟨[name], by simp, hself⟩
          · obtain ⟨names, -, hpath, hfound⟩ := ih hinside
            exact ⟨name :: names, by simp, hpath, by rwa [List.append_cons]⟩
      · rw [List.mem_singleton.mp hvisit]
        exact ⟨[name], by simp, hself⟩

/-- A file that is listed from a directory stands where its names lead from there. -/
theorem exists_of_mem_filesIn (hkeys : fs.Unambiguous)
    (hstat : fs.stat start = .ok (location, .directory)) (h : path ∈ walker.filesIn fs base start) :
    ∃ names bytes, names ≠ [] ∧ path = start.descendant names ∧
      fs.get? (location ++ names) = some (.file bytes) := by
  rw [filesIn] at h
  split at h
  · cases h
  simp only [mem_sort, startFile_eq_nil hstat, List.nil_append, List.mem_filter,
    List.mem_filterMap, below, hstat] at h
  obtain ⟨⟨⟨met, entry⟩, hmet, hfile⟩, -⟩ := h
  obtain ⟨names, hne, hpath, hget⟩ := exists_ledTo_of_mem_descend hkeys hmet
  cases entry with
  | directory => cases hfile
  | link target => cases hfile
  | file bytes =>
      cases hfile
      exact ⟨names, bytes, hne, hpath, hget⟩

end TreeFold.Walker
