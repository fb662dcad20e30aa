import TreeFold.Proofs.Path.Order
import TreeFold.Proofs.Walk.Meeting

/-!
# The files that a walk lists

A walk lists, in strictly ascending order, the files below its start that it meets and that the
globs select. Each condition is about the names that lead from the start to the file: how many there
are, whether one of them is hidden, and how the globs see what lies on the way.
-/

namespace TreeFold.Walker

open TreeFold.Path TreeFold.FileSystem

/-- A hidden name begins with a dot and does not end in one. -/
def Hidden (name : Name) : Prop :=
  name.head? = some '.' ∧ name.getLast? ≠ some '.'

/-- What globs see of the entry that names lead to from the start of a walk: the path behind the
root, when the path of the root stands at its start, and the whole path otherwise. -/
def seenFrom (root start : Path) (names : List Name) : Path :=
  (start.descendant names).relativeOrSelf root

/-- The conditions on a file below a location, to which names lead. Left open are which names are
hidden and what globs see of an entry. -/
structure Qualifies (walker : Walker) (fs : FileSystem) (hidden : Name → Prop)
    (seen : List Name → Path) (location : Location) (names : List Name) : Prop where
  isFile : ∃ bytes, fs.get? (location ++ names) = some (.file bytes)
  reached : ∀ most ∈ walker.maxDepth?, names.length ≤ most
  shown : walker.includeHidden = false → ∀ name ∈ names, ¬hidden name
  /-- Neither the file nor a directory on the way matches a glob to ignore. -/
  spared : ∀ front, front <+: names → front ≠ [] → walker.ignoreGlobs.matches (seen front) = false
  included : ∀ globs ∈ walker.includeGlobs?, globs.matches (seen names) = true

variable {walker : Walker} {fs : FileSystem} {root start path : Path} {location : Location}
  {names : List Name}

theorem Qualifies.isEntryName {hidden : Name → Prop} {seen : List Name → Path}
    (h : walker.Qualifies fs hidden seen location names) (htree : fs.IsTree) :
    ∀ name ∈ names, IsEntryName name := by
  obtain ⟨bytes, hget⟩ := h.isFile
  exact htree.isEntryName_behind hget

theorem hides_eq_false_iff (walker : Walker) (name : Name) :
    walker.hides name = false ↔ (walker.includeHidden = false → ¬Hidden name) := by
  rw [hides, isHidden, Hidden]
  cases walker.includeHidden <;> simp

theorem selects_iff (walker : Walker) (root path : Path) :
    walker.selects root path = true ↔
      walker.ignoreGlobs.matches (path.relativeOrSelf root) = false ∧
        ∀ globs ∈ walker.includeGlobs?, globs.matches (path.relativeOrSelf root) = true := by
  rw [selects]
  cases walker.includeGlobs? <;> simp

theorem reaches_iff (walker : Walker) (depth : Nat) :
    walker.reaches depth = true ↔ ∀ most ∈ walker.maxDepth?, depth ≤ most := by
  rw [reaches]
  cases walker.maxDepth? <;> simp

/-- The files that are met and selected are those that meet the conditions, in directories that can
be opened. -/
theorem exists_meets_iff (htree : fs.IsTree) (hstat : fs.stat start = .ok (location, .directory)) :
    (∃ bytes, walker.Meets fs root start location 0 names (.file bytes) ∧
        walker.selects root (start.descendant names) = true) ↔
      fs.isDirectory (start.descendant names.dropLast) = true ∧
        walker.Qualifies fs Hidden (seenFrom root start) location names := by
  have hdirectory := get?_of_stat hstat
  constructor
  · rintro ⟨bytes, h, hselects⟩
    obtain ⟨hspared, hincluded⟩ := (selects_iff _ _ _).mp hselects
    have hne := ne_nil_of_file hdirectory h.isEntry
    have hshorter : names.dropLast ≠ names := by
      intro heq
      have hlength := congrArg List.length heq
      have hpos := List.length_pos_iff.mpr hne
      rw [List.length_dropLast] at hlength
      omega
    refine ⟨h.opens _ (List.dropLast_prefix _) hshorter, ⟨bytes, h.isEntry⟩, ?_, ?_, ?_, hincluded⟩
    · simpa using (reaches_iff _ _).mp h.reached
    · intro hinclude name hname
      exact (hides_eq_false_iff _ _).mp (h.shown name hname) hinclude
    · intro front hfront hnil
      by_cases hwhole : front = names
      · rw [hwhole]
        exact hspared
      · exact h.spared front hfront hnil fun heq => absurd heq hwhole
  · rintro ⟨hopen, h⟩
    obtain ⟨bytes, hget⟩ := h.isFile
    have hne := ne_nil_of_file hdirectory hget
    have hholder := htree.get?_holder hne hget
    have hsplit := List.dropLast_append_getLast hne
    refine ⟨bytes, ⟨hget, (reaches_iff _ _).mpr (by simpa using h.reached), ?_, ?_, ?_⟩, ?_⟩
    · intro front hfront hdiffer
      rw [← hsplit] at hfront hdiffer
      obtain ⟨back, hback⟩ := (List.prefix_concat_iff.mp hfront).resolve_left hdiffer
      rw [← hback] at hholder hopen
      exact htree.isDirectory_of_descendant hstat hholder hopen
    · intro name hname
      exact (hides_eq_false_iff _ _).mpr fun hinclude => h.shown hinclude name hname
    · intro front hfront hnil _
      exact h.spared front hfront hnil
    · exact (selects_iff _ _ _).mpr ⟨h.spared names (List.prefix_refl _) hne, h.included⟩

theorem startFile_eq_nil (hstat : fs.stat start = .ok (location, .directory)) :
    startFile fs start = [] := by
  rw [startFile, hstat]

/-- The root and what lies below it are places to walk. -/
theorem same_standardInput_of_isAbsolute (h : path.isAbsolute = true) :
    path.same standardInput = false := by
  rw [Path.same, decide_eq_false_iff_not]
  intro heq
  have hroot := (isAbsolute_iff_head? path).mp h
  rw [heq] at hroot
  exact absurd hroot (by decide)

/-- A start that is not found has no files. -/
theorem filesIn_eq_nil {e : Error} (walker : Walker) (root : Path)
    (hstat : fs.stat start = .error e) : walker.filesIn fs root start = [] := by
  simp [filesIn, startFile, below, hstat, Path.sort]

section Files

variable (htree : fs.IsTree) (hkeys : fs.Unambiguous) (hrules : walker.Unsteered fs)
include htree hkeys hrules

/-- A walk from a directory lists the files that it meets and selects. -/
theorem mem_filesIn_iff_meets (hstat : fs.stat start = .ok (location, .directory)) :
    path ∈ walker.filesIn fs root start ↔
      start.same standardInput = false ∧
        ∃ names, path = start.descendant names ∧
          ∃ bytes, walker.Meets fs root start location 0 names (.file bytes) ∧
            walker.selects root (start.descendant names) = true := by
  rw [filesIn]
  cases start.same standardInput with
  | true => simp
  | false =>
      simp only [Bool.false_eq_true, if_false, true_and, mem_sort, startFile_eq_nil hstat,
        List.nil_append, List.mem_filter, List.mem_filterMap]
      constructor
      · rintro ⟨⟨⟨met, entry⟩, hmet, hfile⟩, hselects⟩
        cases entry with
        | directory => cases hfile
        | link target => cases hfile
        | file bytes =>
            cases hfile
            obtain ⟨names, -, rfl, hmeets⟩ := (mem_below_iff htree hkeys hrules hstat).mp hmet
            exact ⟨names, rfl, bytes, hmeets, hselects⟩
      · rintro ⟨names, rfl, bytes, hmeets, hselects⟩
        have hne := ne_nil_of_file (get?_of_stat hstat) hmeets.isEntry
        exact ⟨⟨_, (mem_below_iff htree hkeys hrules hstat).mpr ⟨names, hne, rfl, hmeets⟩, rfl⟩,
          hselects⟩

/-- A walk from a directory lists just the files that meet the conditions. -/
theorem mem_filesIn_iff (hstat : fs.stat start = .ok (location, .directory)) :
    path ∈ walker.filesIn fs root start ↔
      start.same standardInput = false ∧
        ∃ names, path = start.descendant names ∧
          fs.isDirectory (start.descendant names.dropLast) = true ∧
            walker.Qualifies fs Hidden (seenFrom root start) location names := by
  simp only [mem_filesIn_iff_meets htree hkeys hrules hstat, exists_meets_iff htree hstat]

/-- Where a walk starts at a file, it lists nothing else. -/
theorem pairwise_met (base start : Path) :
    (startFile fs start ++ walker.below fs base start).Pairwise
      fun a b => a.path.components ≠ b.path.components := by
  have hbelow := pairwise_below htree hkeys hrules base start
  rw [startFile]
  split
  · rename_i held bytes hstat
    have hnone : walker.below fs base start = [] := by
      rw [below, hstat]
    rw [hnone, List.append_nil]
    exact List.pairwise_singleton _ _
  · exact hbelow

/-- The files come in strictly ascending order. -/
theorem pairwise_filesIn (root start : Path) :
    (walker.filesIn fs root start).Pairwise Before := by
  rw [filesIn]
  split
  · exact List.Pairwise.nil
  · apply pairwise_sort
    apply List.Pairwise.filter
    refine (pairwise_met htree hkeys hrules root start).filterMap _ ?_
    rintro ⟨a, entry⟩ ⟨b, held⟩ hne x hx y hy
    cases entry <;> cases hx
    cases held <;> cases hy
    exact hne

end Files

/-- Below the root, globs see the names that lead from the root to an entry. -/
theorem seenFrom_descendant (above : List Name) (hroot : root.text ≠ [])
    (hnames : ∀ name ∈ above ++ names, IsEntryName name) (hne : above ++ names ≠ []) :
    seenFrom root (root.descendant above) names = ofNames (above ++ names) := by
  rw [seenFrom, ← descendant_append, relativeOrSelf_descendant hroot hnames hne]

/-- A walk that no ignore file steers lists, in strictly ascending order, the files below its start
that meet the conditions and whose directories can be opened, unless the start stands for no place.
A directory can be opened when its path and the names on it are short enough; from a start below the
root, globs see the names that lead to an entry from the root. -/
theorem filesIn_exact (htree : fs.IsTree) (hkeys : fs.Unambiguous)
    (hignore : walker.respectIgnoreFiles = false) (root : Path)
    (hstat : fs.stat start = .ok (location, .directory)) :
    (walker.filesIn fs root start).Pairwise Before ∧
      (∀ path, path ∈ walker.filesIn fs root start ↔
        start.same standardInput = false ∧
          ∃ names, path = start.descendant names ∧
            fs.isDirectory (start.descendant names.dropLast) = true ∧
              walker.Qualifies fs Hidden (seenFrom root start) location names) ∧
      (∀ names, fs.get? (location ++ names) = some .directory →
        (fs.isDirectory (start.descendant names) = true ↔
          checkPath (start.descendant names) = .ok () ∧
            ∀ name ∈ names, Text.byteLength name ≤ maxNameLength)) ∧
      ∀ above names, start = root.descendant above → root.text ≠ [] →
        (∀ name ∈ above ++ names, IsEntryName name) → above ++ names ≠ [] →
          seenFrom root start names = ofNames (above ++ names) := by
  have hrules : walker.Unsteered fs := fun hrespect => by
    rw [hignore] at hrespect
    cases hrespect
  refine ⟨pairwise_filesIn htree hkeys hrules root start,
    fun path => mem_filesIn_iff htree hkeys hrules hstat,
    fun names hget => htree.isDirectory_descendant_iff hstat hget, ?_⟩
  rintro above names rfl hroot hnames hne
  exact seenFrom_descendant above hroot hnames hne

/-- A directory with a file, a hidden file and a directory that holds another file. -/
def besideHidden : FileSystem :=
  ⟨[([['s']], .directory), ([['s'], ['.', 'h']], .file []), ([['s'], ['a']], .file []),
    ([['s'], ['g']], .directory), ([['s'], ['g'], ['b']], .file [])], []⟩

/-- The glob that matches one path. -/
def literally (path : Text) : Glob.Set :=
  ⟨[⟨path.map .literal, false⟩]⟩

/-- A walk that ignores one path and no ignore files, and lists no hidden names. -/
def sparing (ignored : Text) : Walker :=
  ⟨literally ignored, none, false, false, none⟩

theorem qualifies_sparing {ignored : Text} {hidden : Name → Prop} {seen : List Name → Path}
    {name : Name} {bytes : List UInt8} (hget : fs.get? (location ++ [name]) = some (.file bytes))
    (hshown : ¬hidden name)
    (hspared : (sparing ignored).ignoreGlobs.matches (seen [name]) = false) :
    (sparing ignored).Qualifies fs hidden seen location [name] where
  isFile := ⟨bytes, hget⟩
  reached := by simp [sparing]
  shown := by simpa using fun _ => hshown
  spared front hfront hnil := by
    obtain ⟨rest, rfl, hrest⟩ := (List.prefix_cons_iff.mp hfront).resolve_left hnil
    rwa [List.prefix_nil.mp hrest]
  included := by simp [sparing]

/-- The walk lists the file, but neither the hidden one nor the one in the directory to ignore. -/
theorem besideHidden_filesIn :
    besideHidden.IsTree ∧ besideHidden.stat ⟨['.', '/', 's']⟩ = .ok ([['s']], .directory) ∧
      ⟨['.', '/', 's', '/', 'a']⟩ ∈
        (sparing ['s', '/', 'g']).filesIn besideHidden ⟨['.']⟩ ⟨['.', '/', 's']⟩ ∧
      ⟨['.', '/', 's', '/', '.', 'h']⟩ ∉
        (sparing ['s', '/', 'g']).filesIn besideHidden ⟨['.']⟩ ⟨['.', '/', 's']⟩ ∧
      ⟨['.', '/', 's', '/', 'g', '/', 'b']⟩ ∉
        (sparing ['s', '/', 'g']).filesIn besideHidden ⟨['.']⟩ ⟨['.', '/', 's']⟩ := by
  have htree : besideHidden.IsTree := isTree_of_entries (by decide) (by decide)
  have hstat : besideHidden.stat ⟨['.', '/', 's']⟩ = .ok ([['s']], .directory) := rfl
  have hignore : (sparing ['s', '/', 'g']).respectIgnoreFiles = false := rfl
  obtain ⟨-, hfiles, -, -⟩ :=
    filesIn_exact htree (by decide) hignore ⟨['.']⟩ hstat
  refine ⟨htree, hstat, ?_, ?_, ?_⟩
  · exact (hfiles _).mpr ⟨by decide, [['a']], by decide, by decide,
      qualifies_sparing rfl (by simp [Hidden]) (by decide)⟩
  · intro hmem
    obtain ⟨-, names, hpath, -, h⟩ := (hfiles _).mp hmem
    obtain rfl : [['.', 'h']] = names := descendant_inj ⟨['.', '/', 's']⟩ (by decide)
      (h.isEntryName htree) (congrArg components hpath)
    exact h.shown rfl _ List.mem_cons_self ⟨rfl, by decide⟩
  · intro hmem
    obtain ⟨-, names, hpath, -, h⟩ := (hfiles _).mp hmem
    obtain rfl : [['g'], ['b']] = names := descendant_inj ⟨['.', '/', 's']⟩ (by decide)
      (h.isEntryName htree) (congrArg components hpath)
    exact absurd (h.spared [['g']] ⟨[['b']], rfl⟩ (by simp)) (by decide)

/-- Every name that begins with a dot is hidden, every start is a place to walk, and globs see the
names that lead from the root to an entry, those above the start first. -/
def ListsPlainly (walker : Walker) (fs : FileSystem) (root start : Path) (location : Location)
    (above : List Name) : Prop :=
  (walker.filesIn fs root start).Pairwise Before ∧
    ∀ path, path ∈ walker.filesIn fs root start ↔
      ∃ names, path = start.descendant names ∧
        walker.Qualifies fs (·.head? = some '.') (fun front => ofNames (above ++ front)) location
          names

/-- A file whose name begins and ends with a dot. -/
def betweenDots : FileSystem :=
  ⟨[([['.', 'a', '.']], .file [])], []⟩

/-- A directory with the name that stands for no place. -/
def dashed : FileSystem :=
  ⟨[([['-']], .directory), ([['-'], ['a']], .file [])], []⟩

/-- A file two directories down. -/
def twoDown : FileSystem :=
  ⟨[([['s']], .directory), ([['s'], ['t']], .directory), ([['s'], ['t'], ['a']], .file [])], []⟩

/-- A directory whose path is too long shows nothing. -/
theorem not_listsPlainly_slashes {count : Nat} (hpos : count ≠ 0) (hcount : count = maxPathLength) :
    ¬(sparing []).ListsPlainly dashed (slashes count) (slashes count) [] [] := by
  rintro ⟨-, hplain⟩
  have htree : dashed.IsTree := isTree_of_entries (by decide) (by decide)
  have hstat := stat_slashes dashed hpos (Nat.le_of_eq hcount)
  have hspared : ∀ front, front <+: [['-'], ['a']] → front ≠ [] →
      (sparing []).ignoreGlobs.matches (ofNames ([] ++ front)) = false := by
    intro front hfront hnil
    obtain ⟨rest, rfl, hrest⟩ := (List.prefix_cons_iff.mp hfront).resolve_left hnil
    rcases List.prefix_cons_iff.mp hrest with rfl | ⟨more, rfl, hmore⟩
    · decide
    · rw [List.prefix_nil.mp hmore]
      decide
  have hmem := (hplain ((slashes count).descendant [['-'], ['a']])).mpr
    ⟨_, rfl, ⟨[], rfl⟩, by simp [sparing], by simp, hspared, by simp [sparing]⟩
  obtain ⟨-, names, hpath, hopen, h⟩ :=
    (mem_filesIn_iff htree (by decide) (fun h => by cases h) hstat).mp hmem
  obtain rfl : [['-'], ['a']] = names := descendant_inj (slashes count) (by decide)
    (h.isEntryName htree) (congrArg components hpath)
  have hget : dashed.get? ([] ++ [['-']]) = some .directory := rfl
  have hcheck : checkPath ((slashes count).child ['-']) = .ok () :=
    ((htree.isDirectory_descendant_iff hstat hget).mp hopen).1
  exact checkPath_slashes_child hpos (Nat.le_of_eq hcount.symm) (by decide) hcheck

/-- A name between dots is not hidden, a dash is no place to walk, globs do not see the path from
the root when the start is spelled without it, and a directory whose path is too long shows
nothing. -/
theorem not_listsPlainly :
    ¬(sparing []).ListsPlainly betweenDots ⟨['.']⟩ ⟨['.']⟩ [] [] ∧
      ¬(sparing []).ListsPlainly dashed ⟨['-']⟩ ⟨['-']⟩ [['-']] [] ∧
        ¬(sparing ['t', '/', 'a']).ListsPlainly twoDown ⟨['.', '/', 's']⟩ ⟨['s', '/', 't']⟩
          [['s'], ['t']] [['t']] ∧
        ¬(sparing []).ListsPlainly dashed (slashes maxPathLength) (slashes maxPathLength)
          [] [] := by
  refine ⟨?_, ?_, ?_, ?_⟩
  · rintro ⟨-, hplain⟩
    have htree : betweenDots.IsTree := isTree_of_entries (by decide) (by decide)
    have hmem : ⟨['.', '/', '.', 'a', '.']⟩ ∈
        (sparing []).filesIn betweenDots ⟨['.']⟩ ⟨['.']⟩ := by
      exact (mem_filesIn_iff htree (by decide) (fun h => by cases h) rfl).mpr
        ⟨by decide, [['.', 'a', '.']], by decide, by decide,
          qualifies_sparing rfl (by simp [Hidden]) (by decide)⟩
    obtain ⟨names, hpath, h⟩ := (hplain _).mp hmem
    obtain rfl : [['.', 'a', '.']] = names := descendant_inj ⟨['.']⟩ (by decide)
      (h.isEntryName htree) (congrArg components hpath)
    exact h.shown rfl _ List.mem_cons_self rfl
  · rintro ⟨-, hplain⟩
    have hmem := (hplain ⟨['-', '/', 'a']⟩).mpr
      ⟨[['a']], by decide, qualifies_sparing rfl (by simp) (by decide)⟩
    have hnone : (sparing []).filesIn dashed ⟨['-']⟩ ⟨['-']⟩ = [] := rfl
    rw [hnone] at hmem
    cases hmem
  · rintro ⟨-, hplain⟩
    have htree : twoDown.IsTree := isTree_of_entries (by decide) (by decide)
    have hmem : ⟨['s', '/', 't', '/', 'a']⟩ ∈
        (sparing ['t', '/', 'a']).filesIn twoDown ⟨['.', '/', 's']⟩ ⟨['s', '/', 't']⟩ := by
      exact (mem_filesIn_iff htree (by decide) (fun h => by cases h) rfl).mpr
        ⟨by decide, [['a']], by decide, by decide,
          qualifies_sparing rfl (by simp [Hidden]) (by decide)⟩
    obtain ⟨names, hpath, h⟩ := (hplain _).mp hmem
    obtain rfl : [['a']] = names := descendant_inj ⟨['s', '/', 't']⟩ (by decide)
      (h.isEntryName htree) (congrArg components hpath)
    exact absurd (h.spared [['a']] (List.prefix_refl _) (by simp)) (by decide)
  · exact not_listsPlainly_slashes (by decide) rfl

end TreeFold.Walker
