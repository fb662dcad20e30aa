import TreeFold.Proofs.FileSystem.Tree
import TreeFold.Proofs.Path.Descendants

/-!
# Resolution behind a directory

A path that leads to a directory, through whatever links, leads on from there: what is behind it is
followed from the location of the directory. Below that directory names lead to what the tree holds,
as long as the path and each of the names are short enough.
-/

namespace TreeFold.FileSystem

open Component TreeFold.Path

section Follow

variable {fs : FileSystem} {location found : Location} {front : List Text}

/-- Pieces behind a directory are followed from its location, when they are behind a link. -/
theorem followPieces_behind {onLink : Location → Path → List Text → Except Error Place}
    (hlink : ∀ location target rest, onLink location target rest = .ok ⟨found, some .directory⟩ →
      ∃ next, ∀ back, onLink location target (rest ++ back) = fs.followPieces next found back)
    (h : fs.followPieces onLink location front = .ok ⟨found, some .directory⟩) :
    ∃ next, ∀ back,
      fs.followPieces onLink location (front ++ back) = fs.followPieces next found back := by
  induction front generalizing location with
  | nil =>
      rw [followPieces, Except.ok.injEq, Place.mk.injEq] at h
      exact ⟨onLink, fun back => by rw [h.1, List.nil_append]⟩
  | cons piece front ih =>
      have hdir := get?_of_followPieces_cons h
      rw [followPieces_cons hdir] at h
      simp only [List.cons_append, followPieces_cons hdir]
      cases hpiece : ofPiece? piece with
      | none =>
          rw [hpiece] at h
          exact ih h
      | some c =>
          rw [hpiece] at h
          rcases (ofPiece?_eq_some hpiece).2.2 with rfl | rfl
          · exact ih h
          · simp only [reduceCtorEq, if_false] at h ⊢
            split at h
            · cases h
            rename_i hfits
            simp only [hfits, if_false]
            cases hget : fs.get? (location ++ [piece]) with
            | none =>
                rw [hget] at h
                dsimp only at h
                split at h <;> cases h
            | some held =>
                rw [hget] at h
                cases held with
                | directory => exact ih h
                | file bytes => exact ih h
                -- The pieces behind a link are followed from its target, with one link less.
                | link target => exact hlink location target front h

/-- What is behind a directory is followed from its location, with the links that are left. -/
theorem follow_behind {links : Nat}
    (h : fs.follow links location front = .ok ⟨found, some .directory⟩) :
    ∃ next, ∀ back, fs.follow links location (front ++ back) = fs.followPieces next found back := by
  induction links generalizing location front with
  | zero =>
      refine followPieces_behind ?_ h
      intro location target rest hlink
      cases hlink
  | succ links ih =>
      refine followPieces_behind ?_ h
      intro location target rest hlink
      obtain ⟨next, hnext⟩ := ih hlink
      exact ⟨next, fun back => by rw [← List.append_assoc, hnext]⟩

/-- An empty piece before a name does not matter, when it does not behind a link. -/
theorem followPieces_slash {onLink : Location → Path → List Text → Except Error Place}
    {back : List Text} (hback : back ≠ [])
    (hlink : ∀ location target rest,
      onLink location target (rest ++ [] :: back) = onLink location target (rest ++ back))
    (location : Location) (front : List Text) :
    fs.followPieces onLink location (front ++ [] :: back) =
      fs.followPieces onLink location (front ++ back) := by
  induction front generalizing location with
  | nil =>
      by_cases hdir : fs.get? location = some .directory
      · rw [List.nil_append, followPieces_cons hdir, ofPiece?_nil]
        rfl
      · obtain ⟨piece, rest, rfl⟩ := List.exists_cons_of_ne_nil hback
        rw [List.nil_append, List.nil_append, followPieces, followPieces, if_pos hdir, if_pos hdir]
  | cons piece front ih =>
      by_cases hdir : fs.get? location = some .directory
      · have hlong : front ++ [] :: back ≠ [] := by simp
        have hshort : front ++ back ≠ [] := by simp [hback]
        simp only [List.cons_append, followPieces_cons hdir, ih, hlink, if_neg hlong, if_neg hshort]
      · rw [List.cons_append, List.cons_append, followPieces, followPieces, if_pos hdir,
          if_pos hdir]

/-- An empty piece before a name does not matter. -/
theorem follow_slash {back : List Text} (hback : back ≠ []) (links : Nat) (location : Location)
    (front : List Text) :
    fs.follow links location (front ++ [] :: back) = fs.follow links location (front ++ back) := by
  induction links generalizing location front with
  | zero => exact followPieces_slash hback (fun _ _ _ => rfl) location front
  | succ links ih =>
      refine followPieces_slash hback ?_ location front
      intro location target rest
      rw [← List.append_assoc, ih, List.append_assoc]

end Follow

section Below

variable {fs : FileSystem} {path : Path} {location : Location} {names : List Name} {entry : Entry}

/-- A path that names something is followed to it. -/
theorem follow_of_stat (h : fs.stat path = .ok (location, entry)) :
    checkPath path = .ok () ∧
      fs.follow maxLinks (path.start fs.workingDir) path.pieces = .ok ⟨location, some entry⟩ := by
  rw [stat_eq, place_eq] at h
  cases hcheck : checkPath path with
  | error e => simp [hcheck] at h
  | ok u =>
      refine ⟨rfl, ?_⟩
      simp only [hcheck] at h
      split at h
      · cases h
      · cases h
      · rename_i hplace
        cases h
        exact hplace

theorem text_ne_nil_of_stat (h : fs.stat path = .ok (location, entry)) : path.text ≠ [] := by
  intro hnil
  have hcheck := (follow_of_stat h).1
  simp [checkPath, hnil] at hcheck

theorem start_descendant (path : Path) (workingDir : Location)
    (hnames : ∀ name ∈ names, IsEntryName name) :
    (path.descendant names).start workingDir = path.start workingDir := by
  induction names generalizing path with
  | nil => rfl
  | cons name names ih =>
      obtain ⟨hname, hrest⟩ := List.forall_mem_cons.mp hnames
      rw [descendant_cons, ih _ hrest, start_child _ _ hname]

/-- The names behind the path of a directory are followed from its location. -/
theorem exists_follow_descendant (hnames : ∀ name ∈ names, IsEntryName name)
    (h : fs.stat path = .ok (location, .directory)) :
    ∃ next, fs.follow maxLinks (path.start fs.workingDir) (path.descendant names).pieces =
      fs.followPieces next location names := by
  obtain ⟨next, hnext⟩ := follow_behind (follow_of_stat h).2
  refine ⟨next, ?_⟩
  rw [← hnext]
  by_cases hne : names = []
  · rw [hne, descendant_nil, List.append_nil]
  · obtain ⟨before, hpieces, hbefore⟩ :=
      exists_pieces_descendant (text_ne_nil_of_stat h) hnames hne
    rw [hpieces]
    rcases hbefore with hsame | hslash
    · rw [hsame]
    · rw [hslash, List.append_assoc, List.singleton_append, follow_slash hne]

/-- Every location above an entry holds a directory. -/
theorem IsTree.get?_of_below (h : fs.IsTree) (hne : names ≠ [])
    (hget : fs.get? (location ++ names) = some entry) : fs.get? location = some .directory := by
  rcases List.eq_nil_or_concat names with rfl | ⟨front, name, rfl⟩
  · exact absurd rfl hne
  · rw [List.concat_eq_append, ← List.append_assoc] at hget
    exact h.get?_of_append front (h.parent _ name _ hget)

/-- The names that lead from a directory to a file are not none. -/
theorem ne_nil_of_file {bytes : List UInt8} (hdirectory : fs.get? location = some .directory)
    (hfile : fs.get? (location ++ names) = some (.file bytes)) : names ≠ [] := by
  rintro rfl
  rw [List.append_nil, hdirectory] at hfile
  cases hfile

/-- What names lead to below a directory is held by a directory. -/
theorem IsTree.get?_holder (h : fs.IsTree) (hne : names ≠ [])
    (hget : fs.get? (location ++ names) = some entry) :
    fs.get? (location ++ names.dropLast) = some .directory := by
  apply h.get?_of_below (List.cons_ne_nil (names.getLast hne) [])
  rwa [List.append_assoc, List.dropLast_append_getLast hne]

/-- Names lead to what the tree holds, unless one of them is too long. -/
theorem IsTree.followPieces_names (h : fs.IsTree)
    (next : Location → Path → List Text → Except Error Place)
    (hget : fs.get? (location ++ names) = some entry) (hlink : ∀ target, entry ≠ .link target) :
    fs.followPieces next location names =
      if ∀ name ∈ names, Text.byteLength name ≤ maxNameLength then
        .ok ⟨location ++ names, some entry⟩
      else .error .nameTooLong := by
  have hentry := h.isEntryName _ _ hget
  induction names generalizing location with
  | nil =>
      rw [List.append_nil] at hget
      simp [followPieces, hget]
  | cons name names ih =>
      have hdir := h.get?_of_below (List.cons_ne_nil _ _) hget
      have hname : IsEntryName name := hentry name (by simp)
      rw [List.append_cons] at hget hentry ⊢
      rw [followPieces_cons hdir, hname.1]
      simp only [reduceCtorEq, if_false, List.forall_mem_cons]
      by_cases hlong : Text.byteLength name > maxNameLength
      · rw [if_pos hlong, if_neg fun hall => Nat.not_le_of_lt hlong hall.1]
      · have hstep : fs.get? (location ++ [name]) = some entry ∨
            fs.get? (location ++ [name]) = some .directory := by
          by_cases hrest : names = []
          · left
            rwa [hrest, List.append_nil] at hget
          · exact Or.inr (h.get?_of_below hrest hget)
        have hshort : Text.byteLength name ≤ maxNameLength := Nat.le_of_not_lt hlong
        simp only [if_neg hlong, hshort, true_and]
        rw [← ih hget hentry]
        rcases hstep with hstep | hstep
        · rw [hstep]
          cases entry with
          | link target => exact absurd rfl (hlink target)
          | directory => rfl
          | file bytes => rfl
        · rw [hstep]

/-- What names lead to below a directory: the entry of the tree, unless the path or one of the names
is too long. -/
theorem IsTree.stat_descendant (h : fs.IsTree) (hstat : fs.stat path = .ok (location, .directory))
    (hget : fs.get? (location ++ names) = some entry) (hlink : ∀ target, entry ≠ .link target) :
    fs.stat (path.descendant names) =
      match checkPath (path.descendant names) with
      | .error e => .error e
      | .ok _ =>
        if ∀ name ∈ names, Text.byteLength name ≤ maxNameLength then .ok (location ++ names, entry)
        else .error .nameTooLong := by
  have hnames := h.isEntryName_behind hget
  obtain ⟨next, hnext⟩ := exists_follow_descendant hnames hstat
  rw [stat_eq, place_eq, start_descendant _ _ hnames, hnext, h.followPieces_names next hget hlink]
  cases checkPath (path.descendant names) with
  | error e => rfl
  | ok u =>
      dsimp only
      by_cases hshort : ∀ name ∈ names, Text.byteLength name ≤ maxNameLength
      · rw [if_pos hshort, if_pos hshort]
      · rw [if_neg hshort, if_neg hshort]

/-- Every name is one that a directory can hold: it is short enough and does not hold the character
that no path can hold. -/
def NamesFit (fs : FileSystem) : Prop :=
  ∀ location entry, fs.get? location = some entry →
    ∀ name ∈ location, Text.byteLength name ≤ maxNameLength ∧ '\x00' ∉ name

/-- Whether all names fit can be told from the list of entries. -/
theorem namesFit_of_entries (h : ∀ entry ∈ fs.entries, ∀ name ∈ entry.1,
    Text.byteLength name ≤ maxNameLength ∧ '\x00' ∉ name) : fs.NamesFit := by
  intro location entry hget name hname
  exact h _ (mem_entries_of_get? (List.ne_nil_of_mem hname) hget) name hname

/-- Below a directory a file of the tree is found by its path, when the path is short enough. -/
theorem IsTree.isFile_descendant (h : fs.IsTree) (hfit : fs.NamesFit)
    (hstat : fs.stat path = .ok (location, .directory)) {bytes : List UInt8}
    (hget : fs.get? (location ++ names) = some (.file bytes))
    (hshort : Text.byteLength (path.descendant names).text ≤ maxPathLength) :
    fs.isFile (path.descendant names) = true := by
  have hnames := h.isEntryName_behind hget
  have hfits : ∀ name ∈ names, Text.byteLength name ≤ maxNameLength ∧ '\x00' ∉ name :=
    fun name hname => hfit _ _ hget name (List.mem_append_right _ hname)
  obtain ⟨hpath, hne, -⟩ := (checkPath_ok_iff path).mp (follow_of_stat hstat).1
  have hnul : '\x00' ∉ (path.descendant names).text := by
    intro hmem
    rcases mem_text_descendant hnames hmem with hmem | hslash | ⟨name, hname, hmem⟩
    · exact hpath hmem
    · exact absurd hslash (by decide)
    · exact (hfits name hname).2 hmem
  have hcheck : checkPath (path.descendant names) = .ok () :=
    (checkPath_ok_iff _).mpr ⟨hnul, descendant_ne_nil hne hnames, hshort⟩
  rw [isFile, h.stat_descendant hstat hget (by simp), hcheck]
  simp only [if_pos fun name hname => (hfits name hname).1]

/-- What is found by a path of names is what the tree holds there. -/
theorem IsTree.eq_of_stat_descendant (h : fs.IsTree)
    (hstat : fs.stat path = .ok (location, .directory))
    (hget : fs.get? (location ++ names) = some entry) (hlink : ∀ target, entry ≠ .link target)
    {found : Location} {held : Entry}
    (hfound : fs.stat (path.descendant names) = .ok (found, held)) :
    found = location ++ names ∧ held = entry := by
  rw [h.stat_descendant hstat hget hlink] at hfound
  split at hfound
  · cases hfound
  · split at hfound
    · cases hfound
      exact ⟨rfl, rfl⟩
    · cases hfound

/-- A directory of the tree is found by its path when the path and the names on it are short
enough. -/
theorem IsTree.isDirectory_descendant_iff (h : fs.IsTree)
    (hstat : fs.stat path = .ok (location, .directory))
    (hget : fs.get? (location ++ names) = some .directory) :
    fs.isDirectory (path.descendant names) = true ↔
      checkPath (path.descendant names) = .ok () ∧
        ∀ name ∈ names, Text.byteLength name ≤ maxNameLength := by
  rw [isDirectory, h.stat_descendant hstat hget (by simp)]
  cases checkPath (path.descendant names) with
  | error e => simp
  | ok u =>
      dsimp only
      by_cases hshort : ∀ name ∈ names, Text.byteLength name ≤ maxNameLength
      · rw [if_pos hshort]
        exact iff_of_true rfl ⟨rfl, hshort⟩
      · rw [if_neg hshort]
        exact iff_of_false Bool.false_ne_true fun hall => hshort hall.2

theorem checkPath_of_descendant (hpath : path.text ≠ []) (hnames : ∀ name ∈ names, IsEntryName name)
    (hcheck : checkPath (path.descendant names) = .ok ()) : checkPath path = .ok () := by
  induction names generalizing path with
  | nil => exact hcheck
  | cons name names ih =>
      obtain ⟨hname, hrest⟩ := List.forall_mem_cons.mp hnames
      exact checkPath_of_child hpath hname (ih (ne_nil_of_child path hname) hrest hcheck)

/-- On the way to a directory that is found all directories are found. -/
theorem IsTree.isDirectory_of_descendant (h : fs.IsTree)
    (hstat : fs.stat path = .ok (location, .directory)) {front back : List Name}
    (hget : fs.get? (location ++ (front ++ back)) = some .directory)
    (hopen : fs.isDirectory (path.descendant (front ++ back)) = true) :
    fs.isDirectory (path.descendant front) = true := by
  have hnames := h.isEntryName_behind hget
  have hfront : fs.get? (location ++ front) = some .directory :=
    h.get?_of_append back (by rwa [List.append_assoc])
  obtain ⟨hcheck, hshort⟩ := (h.isDirectory_descendant_iff hstat hget).mp hopen
  refine (h.isDirectory_descendant_iff hstat hfront).mpr ⟨?_, fun name hname =>
    hshort name (List.mem_append_left _ hname)⟩
  rw [descendant_append] at hcheck
  exact checkPath_of_descendant
    (descendant_ne_nil (text_ne_nil_of_stat hstat) fun name hname =>
      hnames name (List.mem_append_left _ hname))
    (fun name hname => hnames name (List.mem_append_right _ hname)) hcheck

end Below

section Slashes

/-- The root, spelled with a number of slashes. -/
def slashes (count : Nat) : Path :=
  ⟨List.replicate count '/'⟩

variable {count : Nat}

theorem byteLength_slashes (count : Nat) : Text.byteLength (slashes count).text = count := by
  induction count with
  | zero => rfl
  | succ count ih =>
      rw [slashes, List.replicate_succ', Text.byteLength_append]
      exact congrArg (· + 1) ih

theorem pieces_slashes (count : Nat) :
    (slashes count).pieces = List.replicate (count + 1) [] := by
  induction count with
  | zero => rfl
  | succ count ih =>
      rw [pieces, slashes, List.replicate_succ, List.splitOn_cons_eq_if_modifyHead]
      simp only [beq_self_eq_true, if_true]
      exact congrArg (List.cons []) ih

theorem follow_slashes (fs : FileSystem) (links count : Nat) :
    fs.follow links [] (List.replicate count []) = .ok ⟨[], some .directory⟩ := by
  obtain ⟨onLink, hfollow⟩ := exists_follow_eq fs links
  rw [hfollow]
  induction count with
  | zero => rfl
  | succ count ih =>
      rw [List.replicate_succ, followPieces_cons (get?_nil fs)]
      exact ih

theorem isAbsolute_slashes (hpos : count ≠ 0) : (slashes count).isAbsolute = true := by
  simp [isAbsolute, slashes, List.head?_replicate, hpos]

/-- As long as the path is not too long, slashes lead to the root. -/
theorem stat_slashes (fs : FileSystem) (hpos : count ≠ 0) (hle : count ≤ maxPathLength) :
    fs.stat (slashes count) = .ok ([], .directory) := by
  have hcheck : checkPath (slashes count) = .ok () := by
    rw [checkPath_ok_iff, byteLength_slashes]
    exact ⟨by simp [slashes], by simpa [slashes] using hpos, hle⟩
  rw [stat_eq, place_eq, hcheck, Path.start, if_pos (isAbsolute_slashes hpos), pieces_slashes]
  simp only [follow_slashes]

/-- Behind as many slashes as a path can have, an entry has a path that is too long. -/
theorem checkPath_slashes_child (hpos : count ≠ 0) (hle : maxPathLength ≤ count) {c : Char}
    (hc : c ≠ '/') : checkPath ((slashes count).child [c]) ≠ .ok () := by
  have hrelative : (Path.mk [c]).isAbsolute = false := by simp [isAbsolute, hc]
  have htext : (slashes count).child [c] = ⟨(slashes count).text ++ [c]⟩ := by
    rw [child, join_of_relative _ hrelative, if_pos]
    exact Or.inr (by simp [slashes, List.getLast?_replicate, hpos])
  have hlong : Text.byteLength ((slashes count).text ++ [c]) > maxPathLength := by
    rw [Text.byteLength_append, byteLength_slashes]
    have hsize := c.utf8Size_pos
    simp only [Text.byteLength, List.foldl_cons, List.foldl_nil]
    omega
  intro hcheck
  rw [htext, checkPath_ok_iff] at hcheck
  exact Nat.not_le_of_lt hlong hcheck.2.2

end Slashes

end TreeFold.FileSystem
