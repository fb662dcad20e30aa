import TreeFold.Proofs.FileSystem.Overwrite

/-!
# Sequences of writes

After a sequence of writes, some of which may have failed, every location that was written holds
the last text written there, and every other file is as it was at the start.

Writes that are attempted one after the other succeed or fail by the file system that the ones
before have left.
-/

namespace TreeFold.FileSystem

open TreeFold.Path Text

/-- The last text written at a location. -/
def lastWrite (workingDir : Location) (writes : List (Path × Text)) (location : Location) :
    Option Text :=
  (writes.reverse.find? fun write => write.1.spelled workingDir = location).map (·.2)

theorem lastWrite_concat (workingDir : Location) (writes : List (Path × Text)) (path : Path)
    (text : Text) (location : Location) :
    lastWrite workingDir (writes ++ [(path, text)]) location =
      if path.spelled workingDir = location then some text
      else lastWrite workingDir writes location := by
  rw [lastWrite, List.reverse_append, List.reverse_singleton, List.singleton_append,
    List.find?_cons]
  by_cases h : path.spelled workingDir = location
  · simp [h]
  · simp [h, lastWrite]

theorem lastWrite_append (workingDir : Location) (front back : List (Path × Text))
    (location : Location) :
    lastWrite workingDir (front ++ back) location =
      (lastWrite workingDir back location).or (lastWrite workingDir front location) := by
  rw [lastWrite, List.reverse_append, List.find?_append, Option.map_or]
  rfl

theorem lastWrite_cons (workingDir : Location) (path : Path) (text : Text)
    (rest : List (Path × Text)) (location : Location) :
    lastWrite workingDir ((path, text) :: rest) location =
      (lastWrite workingDir rest location).or
        (if path.spelled workingDir = location then some text else none) := by
  have hone := lastWrite_concat workingDir [] path text location
  rw [List.nil_append] at hone
  rw [← List.singleton_append, lastWrite_append, hone]
  rfl

theorem mem_of_lastWrite {workingDir location : Location} {writes : List (Path × Text)}
    {text : Text} (h : lastWrite workingDir writes location = some text) :
    ∃ path, (path, text) ∈ writes ∧ path.spelled workingDir = location := by
  rw [lastWrite, Option.map_eq_some_iff] at h
  obtain ⟨⟨path, found⟩, hfind, rfl⟩ := h
  refine ⟨path, List.mem_reverse.mp (List.mem_of_find?_eq_some hfind), ?_⟩
  simpa using List.find?_some hfind

theorem lastWrite_eq_none_iff {workingDir location : Location} {writes : List (Path × Text)} :
    lastWrite workingDir writes location = none ↔
      ∀ write ∈ writes, write.1.spelled workingDir ≠ location := by
  rw [lastWrite, Option.map_eq_none_iff, List.find?_eq_none]
  simp

/-- The writes were made, in their order, on the way from the one file system to the other. -/
structure Wrote (fs : FileSystem) (writes : List (Path × Text)) (now : FileSystem) : Prop where
  linkFree : now.LinkFree
  workingDir : now.workingDir = fs.workingDir
  directory : ∀ location, fs.get? location = some .directory →
    now.get? location = some .directory
  file_iff : ∀ location bytes, now.get? location = some (.file bytes) ↔
    match lastWrite fs.workingDir writes location with
    | some text => bytes = encodeUtf8 text
    | none => fs.get? location = some (.file bytes)

namespace Wrote

variable {fs now after : FileSystem} {writes : List (Path × Text)} {path : Path} {text : Text}

theorem nil (h : fs.LinkFree) : Wrote fs [] fs :=
  ⟨h, rfl, fun _ hl => hl, fun _ _ => Iff.rfl⟩

/-- Directories stay, and files do, their bytes aside. -/
theorem retains (h : Wrote fs writes now) : fs.Retains now := by
  constructor
  · exact h.workingDir
  · exact h.directory
  · intro location bytes hget
    cases hlast : lastWrite fs.workingDir writes location with
    | none =>
        refine ⟨bytes, (h.file_iff location bytes).mpr ?_⟩
        rw [hlast]
        exact hget
    | some text =>
        refine ⟨encodeUtf8 text, (h.file_iff location _).mpr ?_⟩
        rw [hlast]

/-- Adding directories is no write. -/
theorem addsDirectories (h : Wrote fs writes now) (hadds : now.AddsDirectories after) :
    Wrote fs writes after := by
  constructor
  · exact hadds.linkFree h.linkFree
  · exact hadds.workingDir.trans h.workingDir
  · intro location hl
    exact hadds.toExtends.keeps location _ (h.directory location hl)
  · intro location bytes
    rw [hadds.get?_file]
    exact h.file_iff location bytes

theorem failed (h : Wrote fs writes now) {e : Error}
    (hwrite : now.overwrite path text = ⟨some e, after⟩) : Wrote fs writes after := by
  rw [overwrite_some hwrite]
  exact h.addsDirectories (addsDirectories_makeParents now path)

/-- A write that succeeds is the last one at its location. -/
theorem written (h : Wrote fs writes now) (hwrite : now.overwrite path text = ⟨none, after⟩) :
    Wrote fs (writes ++ [(path, text)]) after := by
  have hafter := linkFree_overwrite h.linkFree path text
  rw [hwrite] at hafter
  obtain ⟨made, hparents, -, hnil, hdirectory, rfl⟩ := overwrite_none h.linkFree hwrite
  have hmade := h.addsDirectories (addsDirectories_of_makeParents hparents)
  rw [h.workingDir] at hnil hafter hdirectory ⊢
  constructor
  · exact hafter
  · exact hmade.workingDir
  · intro location hl
    have hkept := hmade.directory location hl
    rw [get?_put_of_ne made hnil]
    · exact hkept
    · rintro rfl
      exact hdirectory hkept
  · intro location bytes
    rw [lastWrite_concat, get?_put made hnil]
    by_cases hlocation : path.spelled fs.workingDir = location
    · simp [hlocation, eq_comm]
    · rw [if_neg hlocation, if_neg (fun he => hlocation he.symm)]
      exact hmade.file_iff location bytes

/-- A file that no write went to is as it was. -/
theorem file_iff_of_ne (h : Wrote fs writes now) {location : Location} {bytes : List UInt8}
    (hne : ∀ write ∈ writes, write.1.spelled fs.workingDir ≠ location) :
    now.get? location = some (.file bytes) ↔ fs.get? location = some (.file bytes) := by
  rw [h.file_iff, lastWrite_eq_none_iff.mpr hne]

end Wrote

section Attempt

variable {fs now after : FileSystem} {done writes : List (Path × Text)} {path : Path} {text : Text}

/-- The file system after writes were attempted in their order. -/
def attempt (fs : FileSystem) (writes : List (Path × Text)) : FileSystem :=
  writes.foldl (fun now write => (now.overwrite write.1 write.2).fs) fs

/-- The writes that succeed when they are attempted in their order. -/
def succeeding : FileSystem → List (Path × Text) → List (Path × Text)
  | _, [] => []
  | fs, write :: rest =>
    (if (fs.overwrite write.1 write.2).error?.isNone then [write] else []) ++
      succeeding (fs.overwrite write.1 write.2).fs rest

theorem attempt_cons (fs : FileSystem) (path : Path) (text : Text) (rest : List (Path × Text)) :
    fs.attempt ((path, text) :: rest) = (fs.overwrite path text).fs.attempt rest := rfl

@[simp]
theorem succeeding_nil (fs : FileSystem) : fs.succeeding [] = [] := rfl

theorem succeeding_cons_of_none (h : fs.overwrite path text = ⟨none, after⟩)
    (rest : List (Path × Text)) :
    fs.succeeding ((path, text) :: rest) = (path, text) :: after.succeeding rest := by
  simp [succeeding, h]

theorem succeeding_cons_of_some {e : Error} (h : fs.overwrite path text = ⟨some e, after⟩)
    (rest : List (Path × Text)) :
    fs.succeeding ((path, text) :: rest) = after.succeeding rest := by
  simp [succeeding, h]

/-- A write that succeeds has a path. -/
theorem ne_nil_of_mem_succeeding (fs : FileSystem) (writes : List (Path × Text)) :
    ∀ write ∈ fs.succeeding writes, write.1.text ≠ [] := by
  induction writes generalizing fs with
  | nil => simp
  | cons first rest ih =>
      obtain ⟨path, text⟩ := first
      intro write hwrite
      rcases hfirst : fs.overwrite path text with ⟨_ | e, after⟩
      · rw [succeeding_cons_of_none hfirst, List.mem_cons] at hwrite
        rcases hwrite with rfl | hwrite
        · exact ne_nil_of_overwrite hfirst
        · exact ih after write hwrite
      · rw [succeeding_cons_of_some hfirst] at hwrite
        exact ih after write hwrite

/-- What succeeds was attempted. -/
theorem succeeding_subset (fs : FileSystem) (writes : List (Path × Text)) :
    fs.succeeding writes ⊆ writes := by
  induction writes generalizing fs with
  | nil => exact List.Subset.refl _
  | cons first rest ih =>
      obtain ⟨path, text⟩ := first
      rcases hfirst : fs.overwrite path text with ⟨_ | e, after⟩
      · rw [succeeding_cons_of_none hfirst]
        exact List.cons_subset_cons _ (ih after)
      · rw [succeeding_cons_of_some hfirst]
        exact List.subset_cons_of_subset _ (ih after)

/-- What is attempted writes what succeeds. -/
theorem Wrote.attempt (h : Wrote fs done now) (writes : List (Path × Text)) :
    Wrote fs (done ++ now.succeeding writes) (now.attempt writes) := by
  induction writes generalizing done now with
  | nil =>
      rw [succeeding_nil, List.append_nil]
      exact h
  | cons write rest ih =>
      obtain ⟨path, text⟩ := write
      rw [attempt_cons]
      rcases hwrite : now.overwrite path text with ⟨_ | e, after⟩
      · rw [succeeding_cons_of_none hwrite, List.append_cons]
        exact ih (h.written hwrite)
      · rw [succeeding_cons_of_some hwrite]
        exact ih (h.failed hwrite)

/-- Attempted writes keep directories and files. -/
theorem retains_attempt (hfs : fs.LinkFree) (writes : List (Path × Text)) :
    fs.Retains (fs.attempt writes) :=
  ((Wrote.nil hfs).attempt writes).retains

end Attempt

end TreeFold.FileSystem
