import Mathlib.Tactic.Common
import TreeFold.FileSystem.Basic

/-!
# What changes keep of a file system

A file system is known by the entry at each location. Putting an entry changes one location. A
later file system extends an earlier one when every entry is still there, and it only adds
directories when nothing else is new.
-/

namespace TreeFold.FileSystem

theorem lookup_cons_if (key place : Location) (entry : Entry)
    (rest : List (Location × Entry)) :
    ((place, entry) :: rest).lookup key = if key = place then some entry else rest.lookup key := by
  rw [List.lookup_cons]
  by_cases h : key = place
  · simp [h]
  · rw [beq_eq_false_iff_ne.mpr h, if_neg h]

theorem lookup_setEntry (location key : Location) (entry : Entry)
    (entries : List (Location × Entry)) :
    (setEntry location entry entries).lookup key =
      if key = location then some entry else entries.lookup key := by
  induction entries with
  | nil => rw [setEntry, lookup_cons_if]
  | cons first rest ih =>
      obtain ⟨place, value⟩ := first
      rw [setEntry, lookup_cons_if]
      by_cases hplace : place = location
      · rw [if_pos hplace, lookup_cons_if]
        by_cases h : key = location <;> simp [h, hplace]
      · rw [if_neg hplace, lookup_cons_if, ih]
        by_cases h : key = place
        · simp [h, hplace]
        · simp [h]

@[simp]
theorem get?_nil (fs : FileSystem) : fs.get? [] = some .directory := rfl

theorem get?_of_ne_nil (fs : FileSystem) {location : Location} (h : location ≠ []) :
    fs.get? location = fs.entries.lookup location := by
  cases location with
  | nil => exact absurd rfl h
  | cons name rest => rfl

theorem mem_entries_of_get? {fs : FileSystem} {location : Location} {entry : Entry}
    (hne : location ≠ []) (h : fs.get? location = some entry) :
    (location, entry) ∈ fs.entries := by
  rw [get?_of_ne_nil fs hne] at h
  obtain ⟨before, after, hentries, -⟩ := List.lookup_eq_some_iff.mp h
  simp [hentries]

/-- Putting an entry changes the entry at its location only. -/
theorem get?_put (fs : FileSystem) {location : Location} (h : location ≠ []) (entry : Entry)
    (other : Location) :
    (fs.put location entry).get? other =
      if other = location then some entry else fs.get? other := by
  by_cases hother : other = []
  · subst hother
    rw [get?_nil, get?_nil, if_neg (fun he => h he.symm)]
  · rw [get?_of_ne_nil _ hother, get?_of_ne_nil _ hother]
    exact lookup_setEntry location other entry fs.entries

theorem get?_put_self (fs : FileSystem) {location : Location} (h : location ≠ [])
    (entry : Entry) : (fs.put location entry).get? location = some entry := by
  rw [get?_put fs h, if_pos rfl]

theorem get?_put_of_ne (fs : FileSystem) {location other : Location} (h : location ≠ [])
    (entry : Entry) (hne : other ≠ location) :
    (fs.put location entry).get? other = fs.get? other := by
  rw [get?_put fs h, if_neg hne]

@[simp]
theorem put_workingDir (fs : FileSystem) (location : Location) (entry : Entry) :
    (fs.put location entry).workingDir = fs.workingDir := rfl

section Replace

variable {fs : FileSystem} {location other : Location} {entry value : Entry}

theorem setEntry_of_lookup {entries : List (Location × Entry)}
    (h : entries.lookup location = some entry) : setEntry location entry entries = entries := by
  induction entries with
  | nil => cases h
  | cons first rest ih =>
      obtain ⟨key, held⟩ := first
      rw [lookup_cons_if] at h
      rw [setEntry]
      by_cases hkey : key = location
      · rw [if_pos hkey.symm, Option.some.injEq] at h
        rw [if_pos hkey, hkey, h]
      · rw [if_neg (Ne.symm hkey)] at h
        rw [if_neg hkey, ih h]

theorem setEntry_setEntry (entries : List (Location × Entry)) :
    setEntry location entry (setEntry location value entries) =
      setEntry location entry entries := by
  induction entries with
  | nil => simp [setEntry]
  | cons first rest ih =>
      obtain ⟨key, held⟩ := first
      by_cases hkey : key = location
      · simp [setEntry, hkey]
      · simp [setEntry, hkey, ih]

theorem setEntry_comm {entries : List (Location × Entry)} (hne : location ≠ other)
    (h : entries.lookup location ≠ none) :
    setEntry other entry (setEntry location value entries) =
      setEntry location value (setEntry other entry entries) := by
  induction entries with
  | nil => exact absurd rfl h
  | cons first rest ih =>
      obtain ⟨key, held⟩ := first
      rw [lookup_cons_if] at h
      by_cases hkey : key = location
      · simp [setEntry, hkey, hne]
      · rw [if_neg (Ne.symm hkey)] at h
        by_cases hother : key = other
        · simp [setEntry, hother, Ne.symm hne]
        · simp [setEntry, hkey, hother, ih h]

/-- Putting what is there changes nothing. -/
theorem put_of_get? (hnil : location ≠ []) (h : fs.get? location = some entry) :
    fs.put location entry = fs := by
  rw [get?_of_ne_nil fs hnil] at h
  rw [put, setEntry_of_lookup h]

/-- An entry that is replaced afterwards does not matter. -/
theorem put_put_self (fs : FileSystem) (location : Location) (entry value : Entry) :
    (fs.put location value).put location entry = fs.put location entry := by
  simp only [put, setEntry_setEntry]

/-- Entries can be replaced in any order. -/
theorem put_comm (hnil : location ≠ []) (hne : location ≠ other) (h : fs.get? location ≠ none) :
    (fs.put location value).put other entry = (fs.put other entry).put location value := by
  rw [get?_of_ne_nil fs hnil] at h
  simp only [put, setEntry_comm hne h]

end Replace

/-- The file system holds no symbolic link. -/
def LinkFree (fs : FileSystem) : Prop :=
  ∀ location target, fs.get? location ≠ some (.link target)

theorem linkFree_of_entries {fs : FileSystem}
    (h : ∀ entry ∈ fs.entries, ∀ target, entry.2 ≠ .link target) : fs.LinkFree := by
  intro location target hget
  by_cases hnil : location = []
  · rw [hnil, get?_nil] at hget
    cases hget
  · exact h (location, .link target) (mem_entries_of_get? hnil hget) target rfl

theorem LinkFree.put {fs : FileSystem} (h : fs.LinkFree) {location : Location}
    (hne : location ≠ []) {entry : Entry} (hentry : ∀ target, entry ≠ .link target) :
    (fs.put location entry).LinkFree := by
  intro other target hget
  rw [get?_put fs hne] at hget
  split at hget
  · exact hentry target (Option.some.inj hget)
  · exact h other target hget

/-- Directories are still there in the later file system, and files too, their bytes aside. -/
structure Retains (fs later : FileSystem) : Prop where
  workingDir : later.workingDir = fs.workingDir
  directory : ∀ location, fs.get? location = some .directory →
    later.get? location = some .directory
  file : ∀ location bytes, fs.get? location = some (.file bytes) →
    ∃ held, later.get? location = some (.file held)

namespace Retains

theorem refl (fs : FileSystem) : fs.Retains fs :=
  ⟨rfl, fun _ h => h, fun _ bytes h => ⟨bytes, h⟩⟩

theorem trans {a b c : FileSystem} (hab : a.Retains b) (hbc : b.Retains c) : a.Retains c := by
  constructor
  · exact hbc.workingDir.trans hab.workingDir
  · intro location h
    exact hbc.directory location (hab.directory location h)
  · intro location bytes h
    obtain ⟨held, hheld⟩ := hab.file location bytes h
    exact hbc.file location held hheld

/-- Putting a file where no directory stands keeps directories and files. -/
theorem put_file {fs : FileSystem} {location : Location} (hnil : location ≠ [])
    (h : fs.get? location ≠ some .directory) (bytes : List UInt8) :
    fs.Retains (fs.put location (.file bytes)) := by
  constructor
  · rfl
  · intro other hother
    rw [get?_put_of_ne fs hnil]
    · exact hother
    · rintro rfl
      exact h hother
  · intro other held hother
    rw [get?_put fs hnil]
    split
    · exact ⟨bytes, rfl⟩
    · exact ⟨held, hother⟩

end Retains

/-- Every entry of the file system is still there in the later one. -/
structure Extends (fs later : FileSystem) : Prop where
  workingDir : later.workingDir = fs.workingDir
  keeps : ∀ location entry, fs.get? location = some entry → later.get? location = some entry

namespace Extends

theorem refl (fs : FileSystem) : fs.Extends fs :=
  ⟨rfl, fun _ _ h => h⟩

theorem trans {a b c : FileSystem} (hab : a.Extends b) (hbc : b.Extends c) : a.Extends c := by
  constructor
  · exact hbc.workingDir.trans hab.workingDir
  · intro location entry h
    exact hbc.keeps location entry (hab.keeps location entry h)

theorem retains {fs later : FileSystem} (h : fs.Extends later) : fs.Retains later := by
  constructor
  · exact h.workingDir
  · intro location hl
    exact h.keeps location _ hl
  · intro location bytes hl
    exact ⟨bytes, h.keeps location _ hl⟩

/-- Putting an entry where there was none keeps all others. -/
theorem put {fs : FileSystem} {location : Location} (h : fs.get? location = none)
    (entry : Entry) : fs.Extends (fs.put location entry) := by
  have hne : location ≠ [] := by
    rintro rfl
    cases h
  constructor
  · rfl
  · intro other found hfound
    rw [get?_put_of_ne fs hne]
    · exact hfound
    · rintro rfl
      rw [h] at hfound
      cases hfound

end Extends

/-- The later file system has the same entries and at most directories besides. -/
structure AddsDirectories (fs later : FileSystem) : Prop where
  workingDir : later.workingDir = fs.workingDir
  entry : ∀ location, later.get? location = fs.get? location ∨
    fs.get? location = none ∧ later.get? location = some .directory

namespace AddsDirectories

theorem refl (fs : FileSystem) : fs.AddsDirectories fs :=
  ⟨rfl, fun _ => Or.inl rfl⟩

theorem trans {a b c : FileSystem} (hab : a.AddsDirectories b) (hbc : b.AddsDirectories c) :
    a.AddsDirectories c := by
  constructor
  · exact hbc.workingDir.trans hab.workingDir
  · intro location
    rcases hbc.entry location with hsame | ⟨hnone, hnew⟩
    · rw [hsame]
      exact hab.entry location
    · rcases hab.entry location with hsame' | ⟨hnone', hnew'⟩
      · exact Or.inr ⟨hsame' ▸ hnone, hnew⟩
      · rw [hnew'] at hnone
        cases hnone

theorem put {fs : FileSystem} {location : Location} (h : fs.get? location = none) :
    fs.AddsDirectories (fs.put location .directory) := by
  have hne : location ≠ [] := by
    rintro rfl
    cases h
  constructor
  · rfl
  · intro other
    by_cases heq : other = location
    · subst heq
      exact Or.inr ⟨h, get?_put_self fs hne .directory⟩
    · exact Or.inl (get?_put_of_ne fs hne .directory heq)

theorem toExtends {fs later : FileSystem} (h : fs.AddsDirectories later) : fs.Extends later := by
  constructor
  · exact h.workingDir
  · intro location entry hentry
    rcases h.entry location with hsame | ⟨hnone, -⟩
    · rw [hsame, hentry]
    · rw [hnone] at hentry
      cases hentry

theorem linkFree {fs later : FileSystem} (h : fs.AddsDirectories later) (hfs : fs.LinkFree) :
    later.LinkFree := by
  intro location target hget
  rcases h.entry location with hsame | ⟨-, hnew⟩
  · exact hfs location target (hsame ▸ hget)
  · rw [hnew] at hget
    cases hget

/-- A file is not new. -/
theorem get?_file {fs later : FileSystem} (h : fs.AddsDirectories later) {location : Location}
    {bytes : List UInt8} :
    later.get? location = some (.file bytes) ↔ fs.get? location = some (.file bytes) := by
  constructor
  · intro hfile
    rcases h.entry location with hsame | ⟨-, hnew⟩
    · rw [← hsame, hfile]
    · rw [hnew] at hfile
      cases hfile
  · exact h.toExtends.keeps location _

end AddsDirectories

end TreeFold.FileSystem
