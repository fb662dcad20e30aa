import Mathlib.Data.List.Nodup
import Mathlib.Data.List.Perm.Subperm
import TreeFold.Flatten
import TreeFold.Proofs.FileSystem.Overwrite

/-!
# Names given out

Numbers make different names of one name. Paths of different numbers that exist have different
entries, links or not, so among more numbers than there are paths one is free. Renaming therefore
never runs out of names, and a path that is given out was neither given out before nor names
anything.
-/

namespace TreeFold

open Component TreeFold.Path FileSystem

theorem isEntryName_iff {name : Name} :
    IsEntryName name ↔ name ≠ [] ∧ name ≠ ['.'] ∧ name ≠ ['.', '.'] ∧ '/' ∉ name := by
  rw [IsEntryName, IsPiece, ofPiece?]
  by_cases hnil : name = []
  · simp [hnil]
  · by_cases hdot : name = ['.']
    · simp [hdot]
    · by_cases hdots : name = ['.', '.'] <;> simp [hnil, hdot, hdots]

/-- Slash-free text between two texts widens one of the pieces that the two are cut into. -/
theorem exists_splitOn_around (front back : Text) :
    ∃ before start stop after, '/' ∉ start ∧ '/' ∉ stop ∧ ∀ middle, '/' ∉ middle →
      (front ++ middle ++ back).splitOn '/' = before ++ (start ++ middle ++ stop) :: after := by
  have hfront : ∃ before start, '/' ∉ start ∧
      ∀ text : Text, (front ++ text).splitOn '/' = before ++ (start ++ text).splitOn '/' := by
    by_cases hslash : '/' ∈ front.reverse
    · obtain ⟨start, before, hreverse, hstart⟩ := List.eq_append_cons_of_mem hslash
      refine ⟨before.reverse.splitOn '/', start.reverse, by simpa using hstart, fun text => ?_⟩
      rw [← List.reverse_reverse front, hreverse, ← List.splitOn_append_cons_self]
      simp
    · exact ⟨[], front, by simpa using hslash, fun text => rfl⟩
  have hback : ∃ stop after, '/' ∉ stop ∧
      ∀ text : Text, '/' ∉ text → (text ++ back).splitOn '/' = (text ++ stop) :: after := by
    by_cases hslash : '/' ∈ back
    · obtain ⟨stop, after, rfl, hstop⟩ := List.eq_append_cons_of_mem hslash
      refine ⟨stop, after.splitOn '/', hstop, fun text htext => ?_⟩
      rw [← List.append_assoc, List.splitOn_append_cons_self, List.splitOn_eq_singleton]
      · rfl
      · simp [htext, hstop]
    · refine ⟨back, [], hslash, fun text htext => List.splitOn_eq_singleton ?_⟩
      simp [htext, hslash]
  obtain ⟨before, start, hstart, hbefore⟩ := hfront
  obtain ⟨stop, after, hstop, hafter⟩ := hback
  refine ⟨before, start, stop, after, hstart, hstop, fun middle hmiddle => ?_⟩
  rw [List.append_assoc, hbefore, ← List.append_assoc, hafter]
  simp [hstart, hmiddle]

namespace FileName

/-- A number behind its mark, between two texts. -/
def marked (front back : Text) (n : Nat) : Text :=
  front ++ '_' :: (toString n).toList ++ back

/-- A number stands between two parts of the name, none of them new. -/
theorem exists_numbered (name : Name) :
    ∃ front back, name = front ++ back ∧ ∀ n, numbered name n = marked front back n := by
  cases name with
  | nil => exact ⟨[], [], rfl, fun n => by simp [numbered, marked]⟩
  | cons c rest =>
      refine ⟨c :: rest.takeWhile (· ≠ '.'), rest.dropWhile (· ≠ '.'), ?_, fun n => ?_⟩
      · rw [List.cons_append, List.takeWhile_append_dropWhile]
      · simp [numbered, marked]

theorem slash_not_mem_number (n : Nat) : '/' ∉ '_' :: (toString n).toList := by
  rw [Nat.toString_eq_repr, Nat.toList_repr, List.mem_cons, not_or]
  refine ⟨by decide, fun h => ?_⟩
  exact absurd (Nat.isDigit_of_mem_toDigits (by decide) (by decide) h) (by decide)

/-- A text with a number in it is the name of an entry when no slash stands around the number. -/
theorem isEntryName_marked {front back : Text} (hfront : '/' ∉ front) (hback : '/' ∉ back)
    (n : Nat) : IsEntryName (marked front back n) := by
  have hmark : '_' ∈ marked front back n := by
    simp [marked]
  apply isEntryName_iff.mpr
  refine ⟨?_, ?_, ?_, ?_⟩
  · intro he
    simp [he] at hmark
  · intro he
    simp [he] at hmark
  · intro he
    simp [he] at hmark
  · have hnumber := slash_not_mem_number n
    simp only [marked, List.mem_append, not_or]
    exact ⟨⟨hfront, hnumber⟩, hback⟩

/-- Numbering a name gives the name of an entry. -/
theorem isEntryName_numbered {name : Name} (h : IsEntryName name) (n : Nat) :
    IsEntryName (numbered name n) := by
  obtain ⟨front, back, rfl, hnumbered⟩ := exists_numbered name
  have hslash := (isEntryName_iff.mp h).2.2.2
  rw [List.mem_append, not_or] at hslash
  rw [hnumbered]
  exact isEntryName_marked hslash.1 hslash.2 n

/-- Different numbers make different texts. -/
theorem marked_injective (front back : Text) : Function.Injective (marked front back) := by
  intro a b h
  rw [marked, marked, List.append_cancel_right_eq] at h
  have hdigits := (List.cons.inj (List.append_cancel_left h)).2
  rw [Nat.toString_eq_repr, Nat.toString_eq_repr, Nat.toList_repr, Nat.toList_repr] at hdigits
  have hparsed := congrArg (Nat.ofDigitChars 10 · 0) hdigits
  simpa using hparsed

theorem isAbsolute_numbered (name : Name) (n : Nat) :
    (Path.mk (numbered name n)).isAbsolute = (Path.mk name).isAbsolute := by
  cases name <;> simp [numbered, isAbsolute]

section Child

variable (directory : Path) (name : Name)

/-- Numbering the name puts the number into the text of the path. -/
theorem exists_text_child :
    ∃ front back, (directory.child name).text = front ++ back ∧
      ∀ n, (directory.child (numbered name n)).text = marked front back n := by
  obtain ⟨front, back, hname, hnumbered⟩ := exists_numbered name
  have habsolute := isAbsolute_numbered name
  cases h : (Path.mk name).isAbsolute with
  | true =>
      refine ⟨front, back, ?_, fun n => ?_⟩
      · simpa [child, join, h] using hname
      · simpa [child, join, habsolute, h] using hnumbered n
  | false =>
      simp only [child, join, habsolute, h, Bool.false_eq_true, if_false]
      split
      · refine ⟨directory.text ++ front, back, ?_, fun n => ?_⟩
        · simp [hname]
        · simp [hnumbered, marked]
      · refine ⟨directory.text ++ '/' :: front, back, ?_, fun n => ?_⟩
        · simp [hname]
        · simp [hnumbered, marked]

theorem isAbsolute_child_numbered (n : Nat) :
    (directory.child (numbered name n)).isAbsolute = (directory.child name).isAbsolute := by
  have habsolute := isAbsolute_numbered name n
  rw [child, child]
  cases h : (Path.mk name).isAbsolute with
  | true => simp [join, habsolute, h]
  | false => rw [isAbsolute_join _ h, isAbsolute_join _ (habsolute.trans h)]

/-- Numbering the name changes one piece of the path. -/
theorem exists_pieces_child :
    ∃ before front back after, '/' ∉ front ∧ '/' ∉ back ∧
      ∀ n, (directory.child (numbered name n)).pieces =
        before ++ marked front back n :: after := by
  obtain ⟨textBefore, textAfter, -, htext⟩ := exists_text_child directory name
  obtain ⟨before, front, back, after, hfront, hback, hpieces⟩ :=
    exists_splitOn_around textBefore textAfter
  refine ⟨before, front, back, after, hfront, hback, fun n => ?_⟩
  rw [pieces, htext]
  exact hpieces _ (slash_not_mem_number n)

/-- Different numbers make different paths. -/
theorem components_child_injective :
    Function.Injective fun n => (directory.child (numbered name n)).components := by
  obtain ⟨before, front, back, after, hfront, hback, hpieces⟩ := exists_pieces_child directory name
  have hmoves : ∀ n, (directory.child (numbered name n)).moves =
      before.filterMap ofPiece? ++ normal (marked front back n) :: after.filterMap ofPiece? := by
    intro n
    rw [moves, hpieces, List.filterMap_append,
      List.filterMap_cons_some (isEntryName_marked hfront hback n).1]
  intro a b h
  simp only [components_eq, hmoves] at h
  have hmarked := (List.append_inj' h (by simp)).2
  simp only [List.append_cancel_left_eq, List.cons.injEq, normal.injEq, and_true] at hmarked
  exact marked_injective front back hmarked

/-- A number makes a path longer. -/
theorem child_numbered_ne (n : Nat) : directory.child (numbered name n) ≠ directory.child name := by
  obtain ⟨front, back, hname, hnumbered⟩ := exists_text_child directory name
  intro h
  have hlength := congrArg (·.text.length) h
  simp only [hname, hnumbered, marked, List.length_append, List.length_cons] at hlength
  omega

end Child

end FileName

namespace NameAllocator

variable {names : NameAllocator} {fs : FileSystem} {name : Name}

theorem not_isTaken {path : Path} :
    names.isTaken fs path = false ↔
      path.components ∉ names.claimed ∧ fs.pathExists path = false := by
  rw [isTaken, Bool.or_eq_false_iff, ← Bool.not_eq_true, List.contains_iff_mem]

/-- A search that finds nothing found every number taken. -/
theorem isTaken_of_firstFree? {tries n : Nat} (h : names.firstFree? fs name tries n = none)
    {k : Nat} (hk : k < tries) : names.isTaken fs (names.candidate name (n + k)) = true := by
  induction tries generalizing n k with
  | zero => exact absurd hk (Nat.not_lt_zero k)
  | succ tries ih =>
      rw [firstFree?] at h
      split at h
      · rename_i htaken
        cases k with
        | zero => exact htaken
        | succ k =>
            have hnext := ih h (Nat.lt_of_succ_lt_succ hk)
            rwa [Nat.add_right_comm, Nat.add_assoc] at hnext
      · cases h

/-- A search finds the first numbered path that is free. -/
theorem firstFree?_eq_some {tries n : Nat} {path : Path}
    (h : names.firstFree? fs name tries n = some path) :
    ∃ m, n ≤ m ∧ path = names.candidate name m ∧ names.isTaken fs path = false ∧
      ∀ k, n ≤ k → k < m → names.isTaken fs (names.candidate name k) = true := by
  induction tries generalizing n with
  | zero => cases h
  | succ tries ih =>
      rw [firstFree?] at h
      split at h
      · rename_i htaken
        obtain ⟨m, hm, hpath, hfree, hbelow⟩ := ih h
        refine ⟨m, Nat.le_of_succ_le hm, hpath, hfree, fun k hnk hkm => ?_⟩
        rcases Nat.eq_or_lt_of_le hnk with rfl | hnk
        · exact htaken
        · exact hbelow k hnk hkm
      · rename_i hfree
        cases h
        refine ⟨n, le_rfl, rfl, Bool.not_eq_true _ ▸ hfree, fun k hnk hkn => ?_⟩
        exact absurd hkn (Nat.not_lt.mpr hnk)

section Bound

variable (names : NameAllocator) (fs : FileSystem) (name : Name)

/-- Each numbered path that exists has an entry of its own, links or not: all of them lead to one
directory, and differ in the name that they look for in it. -/
theorem exists_locations :
    ∃ location : Nat → Location, Function.Injective location ∧
      ∀ n, fs.pathExists (names.candidate name n) = true →
        location n ∈ fs.entries.map (·.1) := by
  obtain ⟨before, front, back, after, hfront, hback, hpieces⟩ :=
    FileName.exists_pieces_child names.directory name
  obtain ⟨holder, hholder⟩ := exists_looksIn fs maxLinks
    (fs.startOf (names.directory.child name)) before
  refine ⟨fun n => holder ++ [FileName.marked front back n], ?_, fun n hexists => ?_⟩
  · intro a b h
    exact FileName.marked_injective front back (by simpa using List.append_cancel_left h)
  · obtain ⟨found, entry, hplace⟩ := pathExists_iff.mp hexists
    rw [place_eq] at hplace
    split at hplace
    · cases hplace
    have hstart : (names.candidate name n).start fs.workingDir =
        fs.startOf (names.directory.child name) := by
      rw [startOf, start, candidate, FileName.isAbsolute_child_numbered]
    rw [hstart, candidate, hpieces] at hplace
    obtain ⟨held, hheld⟩ := hholder _ _ _ _ (FileName.isEntryName_marked hfront hback n) hplace
    exact List.mem_map.mpr ⟨_, mem_entries_of_get? (by simp) hheld, rfl⟩

/-- What takes a numbered path: its claim, or the entry that it has. -/
def takenBy (location : Nat → Location) (n : Nat) : List Component ⊕ Location :=
  if (names.candidate name n).components ∈ names.claimed then
    .inl (names.candidate name n).components
  else .inr (location n)

variable {names fs name} {location : Nat → Location}

theorem takenBy_mem
    (hlocation : ∀ n, fs.pathExists (names.candidate name n) = true →
      location n ∈ fs.entries.map (·.1))
    {n : Nat} (h : names.isTaken fs (names.candidate name n) = true) :
    takenBy names name location n ∈
      names.claimed.map .inl ++ (fs.entries.map (·.1)).map .inr := by
  rw [takenBy, List.mem_append]
  split
  · rename_i hclaimed
    exact Or.inl (List.mem_map_of_mem hclaimed)
  · rename_i hclaimed
    apply Or.inr
    apply List.mem_map_of_mem
    apply hlocation
    by_contra hfree
    rw [not_isTaken.mpr ⟨hclaimed, Bool.eq_false_iff.mpr hfree⟩] at h
    cases h

theorem takenBy_injective (hlocation : Function.Injective location) :
    Function.Injective (takenBy names name location) := by
  intro a b h
  rw [takenBy, takenBy] at h
  by_cases ha : (names.candidate name a).components ∈ names.claimed
  · by_cases hb : (names.candidate name b).components ∈ names.claimed
    · rw [if_pos ha, if_pos hb] at h
      exact FileName.components_child_injective names.directory name (Sum.inl.inj h)
    · rw [if_pos ha, if_neg hb] at h
      cases h
  · by_cases hb : (names.candidate name b).components ∈ names.claimed
    · rw [if_neg ha, if_pos hb] at h
      cases h
    · rw [if_neg ha, if_neg hb] at h
      exact hlocation (Sum.inr.inj h)

/-- Among more numbers than there are paths, one is free. -/
theorem firstFree?_isSome :
    names.firstFree? fs name (names.claimed.length + fs.entries.length + 1) 1 ≠ none := by
  intro h
  obtain ⟨location, hinjective, hlocation⟩ := exists_locations names fs name
  have hsubset : (List.range (names.claimed.length + fs.entries.length + 1)).map
      (fun k => takenBy names name location (1 + k)) ⊆
      names.claimed.map .inl ++ (fs.entries.map (·.1)).map .inr := by
    intro key hkey
    obtain ⟨k, hk, rfl⟩ := List.mem_map.mp hkey
    exact takenBy_mem hlocation (isTaken_of_firstFree? h (List.mem_range.mp hk))
  have hnodup : ((List.range (names.claimed.length + fs.entries.length + 1)).map
      (fun k => takenBy names name location (1 + k))).Nodup := by
    apply List.Nodup.map _ List.nodup_range
    intro a b hab
    exact Nat.add_left_cancel (takenBy_injective hinjective hab)
  have hlength := (hnodup.subperm hsubset).length_le
  simp only [List.length_map, List.length_range, List.length_append] at hlength
  omega

end Bound

/-- The path for a name is its own when that is free. When it is taken there is no path for it, or
it is the first numbered one that is free, as the policy says. -/
theorem choose?_cases (names : NameAllocator) (fs : FileSystem) (name : Name) :
    (names.isTaken fs (names.directory.child name) = false ∧
      names.choose? fs name = some (names.directory.child name)) ∨
    names.isTaken fs (names.directory.child name) = true ∧
      (names.policy = .skipExisting ∧ names.choose? fs name = none ∨
      names.policy = .renameWithSuffix ∧ ∃ n, 1 ≤ n ∧
        names.choose? fs name = some (names.candidate name n) ∧
        names.isTaken fs (names.candidate name n) = false ∧
        ∀ k, 1 ≤ k → k < n → names.isTaken fs (names.candidate name k) = true) := by
  cases htaken : names.isTaken fs (names.directory.child name) with
  | false => exact Or.inl ⟨rfl, by simp [choose?, htaken]⟩
  | true =>
      refine Or.inr ⟨rfl, ?_⟩
      cases hpolicy : names.policy with
      | skipExisting => exact Or.inl ⟨rfl, by simp [choose?, htaken, hpolicy]⟩
      | renameWithSuffix =>
          obtain ⟨path, hpath⟩ := Option.ne_none_iff_exists'.mp
            (firstFree?_isSome : names.firstFree? fs name _ 1 ≠ none)
          obtain ⟨n, hn, rfl, hfree, hbelow⟩ := firstFree?_eq_some hpath
          exact Or.inr ⟨rfl, n, hn, by simp [choose?, htaken, hpolicy, hpath], hfree, hbelow⟩

/-- A path that is given out lies in the directory, and is free. -/
theorem choose?_eq_some (hname : IsEntryName name) {path : Path}
    (h : names.choose? fs name = some path) :
    ∃ given, IsEntryName given ∧ path = names.directory.child given ∧
      path.components ∉ names.claimed ∧ fs.pathExists path = false := by
  obtain ⟨hfree, hown⟩ | ⟨-, ⟨-, hnone⟩ | ⟨-, n, -, hnumbered, hfree, -⟩⟩ :=
    choose?_cases names fs name
  · obtain rfl := Option.some.inj (hown.symm.trans h)
    exact ⟨name, hname, rfl, not_isTaken.mp hfree⟩
  · rw [hnone] at h
    cases h
  · obtain rfl := Option.some.inj (hnumbered.symm.trans h)
    exact ⟨_, FileName.isEntryName_numbered hname n, rfl, not_isTaken.mp hfree⟩

/-- Renaming always gives out a path. -/
theorem choose?_isSome (hpolicy : names.policy = .renameWithSuffix) :
    names.choose? fs name ≠ none := by
  obtain ⟨-, hown⟩ | ⟨-, ⟨hskip, -⟩ | ⟨-, n, -, hnumbered, -⟩⟩ := choose?_cases names fs name
  · simp [hown]
  · rw [hpolicy] at hskip
    cases hskip
  · simp [hnumbered]

end NameAllocator

end TreeFold
