import TreeFold.CommandLine.Tree
import TreeFold.Proofs.FileTree.Nodes
import TreeFold.Proofs.Walk.Listed
import TreeFold.Proofs.Walk.Shown

/-!
# The line counts that a tree shows

Each file that a walk lists is a node of the tree, with the line count of the file, and each node
that is not too deep has a line in the outline that ends in the label of the node.
-/

namespace TreeFold.FileTree

open TreeFold.Path TreeFold.FileSystem TreeFold.Walker

variable {fs : FileSystem} {walker : Walker} {directory file : Path} {location : Location}
  {tree : FileTree} {name : Name} {names path : List Name} {lines : Nat} {lines? : Option Nat}

section Node

/-- Each file that a walk lists below a directory is in the tree, with the number of its lines. -/
theorem exists_get?_ofWalk (htree : fs.IsTree) (hkeys : fs.Unambiguous)
    (hstat : fs.stat directory = .ok (location, .directory))
    (hlisted : file ∈ walker.files fs directory) :
    ∃ names, names ≠ [] ∧ file = directory.descendant names ∧
      (ofWalk walker fs directory).get? names =
        some (some ((fs.countLines file).toOption.getD 0)) := by
  have hnamed : ∀ path ∈ walker.files fs directory, ∃ names, names ≠ [] ∧
      path = directory.descendant names ∧ namesBelow? directory path = some names := by
    intro path hpath
    obtain ⟨names, bytes, hne, rfl, hget⟩ := exists_of_mem_filesIn hkeys hstat hpath
    exact ⟨names, hne, rfl, namesBelow?_descendant (text_ne_nil_of_stat hstat)
      (htree.isEntryName_behind hget) hne⟩
  have hinserted : ∀ names lines, (names, lines) ∈ insertions walker fs directory →
      names ≠ [] ∧ lines = (fs.countLines (directory.descendant names)).toOption.getD 0 := by
    intro names lines hmem
    obtain ⟨path, hpath, hmap⟩ := List.mem_filterMap.mp hmem
    obtain ⟨others, hne, hdescendant, hbelow⟩ := hnamed path hpath
    rw [hbelow] at hmap
    cases hmap
    exact ⟨hne, by rw [← hdescendant]⟩
  obtain ⟨names, hne, hfile, hbelow⟩ := hnamed file hlisted
  refine ⟨names, hne, hfile, ?_⟩
  have hmem : (names, (fs.countLines file).toOption.getD 0) ∈ insertions walker fs directory :=
    List.mem_filterMap.mpr ⟨file, hlisted, by rw [hbelow]; rfl⟩
  have hsame : ∀ other, (names, other) ∈ insertions walker fs directory →
      other = (fs.countLines file).toOption.getD 0 := by
    intro other hother
    rw [(hinserted names other hother).2, hfile]
  rw [ofWalk_eq, get?_ofFiles fun inserted hmem => (hinserted inserted.1 inserted.2 hmem).1,
    if_pos ⟨hne, _, hmem, List.prefix_rfl⟩, lastCount?_of_mem hsame hmem]

end Node

section Outline

theorem get?_atMost {levels : Nat} (h : path.length ≤ levels) :
    (tree.atMost levels).get? path = tree.get? path := by
  fun_induction atMost levels tree generalizing path with
  | case1 tree =>
      rw [List.length_eq_zero_iff.mp (Nat.le_zero.mp h), get?_nil, get?_nil]
  | case2 => rfl
  | case3 levels first count? below rest ihbelow ihrest =>
      cases path with
      | nil => rfl
      | cons name names =>
          rw [get?_cons, get?_cons, ihbelow (Nat.le_of_succ_le_succ h), ihrest h]

/-- Nodes that are not too deep are kept. -/
theorem get?_limited {depth? : Option Nat} (h : depth?.all (path.length ≤ ·) = true) :
    (tree.limited depth?).get? path = tree.get? path := by
  cases depth? with
  | none => rfl
  | some depth => exact get?_atMost (of_decide_eq_true h)

/-- The line of an entry ends in its label and stands before the lines of those below and behind. -/
theorem exists_outlineBelow_eq (coloured : Bool) (branches : Text) (name : Name)
    (lines? : Option Nat) (below rest : FileTree) :
    ∃ branch further, outlineBelow coloured branches (entry name lines? below rest) =
      (branch ++ label coloured name lines?) ::
        (outlineBelow coloured further below ++ outlineBelow coloured branches rest) := by
  cases rest <;> exact ⟨_, _, rfl⟩

/-- Each node has a line in the outline, which ends in its label. -/
theorem exists_mem_outlineBelow (coloured : Bool) (branches : Text)
    (h : tree.get? (names ++ [name]) = some lines?) :
    ∃ line ∈ outlineBelow coloured branches tree, label coloured name lines? <:+ line := by
  induction tree generalizing names branches with
  | empty => cases h
  | entry first count? below rest ihbelow ihrest =>
      obtain ⟨branch, further, hlines⟩ :=
        exists_outlineBelow_eq coloured branches first count? below rest
      rw [hlines]
      have hbehind : rest.get? (names ++ [name]) = some lines? →
          ∃ line ∈ (branch ++ label coloured first count?) ::
            (outlineBelow coloured further below ++ outlineBelow coloured branches rest),
            label coloured name lines? <:+ line := by
        intro hrest
        obtain ⟨line, hline, hlabel⟩ := ihrest branches hrest
        exact ⟨line, by simp [hline], hlabel⟩
      cases names with
      | nil =>
          rw [List.nil_append, get?_cons] at h
          split_ifs at h with hfirst hnil
          · cases h
            exact ⟨_, List.mem_cons_self, hfirst ▸ List.suffix_append _ _⟩
          · exact absurd rfl hnil
          · exact hbehind h
      | cons second names =>
          rw [List.cons_append, get?_cons] at h
          split_ifs at h with hfirst hnil
          · exact absurd hnil (by simp)
          · obtain ⟨line, hline, hlabel⟩ := ihbelow further h
            exact ⟨line, by simp [hline], hlabel⟩
          · exact hbehind h

end Outline

end TreeFold.FileTree
