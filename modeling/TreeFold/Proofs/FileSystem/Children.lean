import Mathlib.Data.List.Nodup
import TreeFold.Proofs.FileSystem.Entries

/-!
# The children of a directory

Where no location is listed twice, the children of a directory are the entries that are found right
below it, each under its own name, and no entry lies deeper than the height of the file system.
-/

namespace TreeFold.FileSystem

/-- No location is listed twice. -/
def Unambiguous (fs : FileSystem) : Prop :=
  (fs.entries.map Prod.fst).Nodup

instance (fs : FileSystem) : Decidable fs.Unambiguous :=
  inferInstanceAs (Decidable (fs.entries.map Prod.fst).Nodup)

variable {fs : FileSystem} {location : Location} {name : Name} {entry : Entry}

/-- A listed entry counts as a child only at the name below the location. -/
theorem eq_of_child {key : Location} {held : Entry} {found : Name × Entry}
    (h : (match location.isPrefixOf? key with
      | some [name] => some (name, held)
      | _ => none) = some found) : key = location ++ [found.1] ∧ found.2 = held := by
  split at h
  · rename_i other hkey
    cases h
    exact ⟨(List.isPrefixOf?_eq_some_iff_append_eq.mp hkey).symm, rfl⟩
  · cases h

theorem mem_children_iff_mem_entries :
    (name, entry) ∈ fs.children location ↔ (location ++ [name], entry) ∈ fs.entries := by
  rw [children, List.mem_filterMap]
  constructor
  · rintro ⟨⟨key, held⟩, hmem, hname⟩
    obtain ⟨rfl, rfl⟩ := eq_of_child hname
    exact hmem
  · intro hmem
    refine ⟨_, hmem, ?_⟩
    have hkey : location.isPrefixOf? (location ++ [name]) = some [name] :=
      List.isPrefixOf?_eq_some_iff_append_eq.mpr rfl
    simp only [hkey]

/-- What is listed at a location is found there. -/
theorem Unambiguous.get?_of_mem (h : fs.Unambiguous) (hne : location ≠ [])
    (hmem : (location, entry) ∈ fs.entries) : fs.get? location = some entry := by
  rw [get?_of_ne_nil fs hne]
  obtain ⟨before, after, hentries⟩ := List.append_of_mem hmem
  refine List.lookup_eq_some_iff.mpr ⟨before, after, hentries, ?_⟩
  intro other hother
  rw [Unambiguous, hentries, List.map_append, List.map_cons, List.nodup_append] at h
  have hdiffer := h.2.2 other.1 (List.mem_map_of_mem hother) location List.mem_cons_self
  exact bne_iff_ne.mpr hdiffer.symm

/-- The children of a directory are what is found right below it. -/
theorem Unambiguous.mem_children_iff (h : fs.Unambiguous) :
    (name, entry) ∈ fs.children location ↔ fs.get? (location ++ [name]) = some entry := by
  have hne : location ++ [name] ≠ [] := by simp
  rw [mem_children_iff_mem_entries]
  exact ⟨h.get?_of_mem hne, mem_entries_of_get? hne⟩

/-- No two children have the same name. -/
theorem Unambiguous.pairwise_children (h : fs.Unambiguous) (location : Location) :
    (fs.children location).Pairwise fun a b => a.1 ≠ b.1 := by
  rw [children]
  have hkeys : fs.entries.Pairwise fun a b => a.1 ≠ b.1 := List.pairwise_map.mp h
  refine hkeys.filterMap _ ?_
  rintro ⟨key, held⟩ ⟨other, kept⟩ hne a ha b hb hab
  obtain ⟨hkey, -⟩ := eq_of_child ha
  obtain ⟨hother, -⟩ := eq_of_child hb
  exact hne (by rw [hkey, hother, hab])

/-- Putting an entry lists its location at most once more. -/
theorem map_fst_setEntry (location : Location) (entry : Entry) (entries : List (Location × Entry)) :
    (setEntry location entry entries).map Prod.fst =
      if location ∈ entries.map Prod.fst then entries.map Prod.fst
      else entries.map Prod.fst ++ [location] := by
  induction entries with
  | nil => rfl
  | cons first rest ih =>
      obtain ⟨key, value⟩ := first
      rw [setEntry]
      by_cases hkey : key = location
      · simp [hkey]
      · rw [if_neg hkey, List.map_cons, ih]
        by_cases hmem : location ∈ rest.map Prod.fst <;> simp [hmem, Ne.symm hkey]

theorem Unambiguous.put (h : fs.Unambiguous) (location : Location) (entry : Entry) :
    (fs.put location entry).Unambiguous := by
  rw [Unambiguous, FileSystem.put, map_fst_setEntry]
  split
  · exact h
  · rename_i hnew
    exact List.nodup_append.mpr ⟨h, List.nodup_singleton location, fun key hkey other hother => by
      rw [List.mem_singleton.mp hother]
      exact fun heq => hnew (heq ▸ hkey)⟩

theorem length_le_foldl_max (entries : List (Location × Entry)) (most : Nat) :
    most ≤ entries.foldl (fun most (key, _) => max most key.length) most ∧
      ∀ held ∈ entries, held.1.length ≤
        entries.foldl (fun most (key, _) => max most key.length) most := by
  induction entries generalizing most with
  | nil => simp
  | cons first rest ih =>
      obtain ⟨hmost, hrest⟩ := ih (max most first.1.length)
      rw [List.foldl_cons, List.forall_mem_cons]
      exact ⟨Nat.le_trans (Nat.le_max_left _ _) hmost,
        Nat.le_trans (Nat.le_max_right _ _) hmost, hrest⟩

/-- No entry lies deeper than the height. -/
theorem length_le_height (hget : fs.get? location = some entry) : location.length ≤ fs.height := by
  by_cases hne : location = []
  · simp [hne]
  · exact (length_le_foldl_max fs.entries 0).2 _ (mem_entries_of_get? hne hget)

end TreeFold.FileSystem
