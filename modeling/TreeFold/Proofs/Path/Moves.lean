import Mathlib.Data.List.Basic
import TreeFold.Path.Lexical

/-!
# Paths as moves

What a path does is told by its moves: the steps up and the names among its pieces. A path spells
the location that its moves lead to from its start. Joining paths joins their moves, so the
location of a joined path is reached from the location of the first one.
-/

namespace TreeFold

/-- A piece of a path that stands for a component other than the root. -/
def Component.IsPiece (piece : Text) (c : Component) : Prop :=
  ofPiece? piece = some c ∧ '/' ∉ piece

/-- A name that an entry of a directory can have. -/
def IsEntryName (name : Name) : Prop :=
  Component.IsPiece name (.normal name)

instance (name : Name) : Decidable (IsEntryName name) :=
  inferInstanceAs (Decidable (Component.ofPiece? name = some (.normal name) ∧ '/' ∉ name))

namespace Component

theorem ofPiece?_eq_some {piece : Text} {c : Component} (h : ofPiece? piece = some c) :
    piece ≠ [] ∧ c.text = piece ∧ (c = parent ∨ c = normal piece) := by
  rw [ofPiece?] at h
  split at h
  · cases h
  · rename_i hne
    simp only [Bool.or_eq_true, decide_eq_true_eq, not_or] at hne
    split at h
    · rename_i hdots
      cases h
      exact ⟨hne.1, hdots.symm, Or.inl rfl⟩
    · cases h
      exact ⟨hne.1, rfl, Or.inr rfl⟩

theorem ofPiece?_nil : ofPiece? [] = none := rfl

theorem IsPiece.ne_nil {piece : Text} {c : Component} (h : IsPiece piece c) : piece ≠ [] :=
  (ofPiece?_eq_some h.1).1

theorem IsPiece.text_eq {piece : Text} {c : Component} (h : IsPiece piece c) : c.text = piece :=
  (ofPiece?_eq_some h.1).2.1

theorem IsPiece.ne_root {piece : Text} {c : Component} (h : IsPiece piece c) : c ≠ root := by
  rcases (ofPiece?_eq_some h.1).2.2 with rfl | rfl <;> simp

end Component

namespace Path

open Component

/-- The steps up and the names in the order of the path. -/
def moves (path : Path) : List Component :=
  path.pieces.filterMap ofPiece?

/-- The location that a path starts from. -/
def start (workingDir : Location) (path : Path) : Location :=
  if path.isAbsolute then [] else workingDir

/-- The location that a path spells, which is the working directory for the empty path. -/
def spelled (workingDir : Location) (path : Path) : Location :=
  path.moves.foldl followComponent (path.start workingDir)

theorem pieces_ne_nil (path : Path) : path.pieces ≠ [] :=
  List.splitOn_ne_nil _ _

/-- No piece holds a slash. -/
theorem slash_not_mem_of_mem_splitOn {text piece : Text} (h : piece ∈ text.splitOn '/') :
    '/' ∉ piece := by
  induction text generalizing piece with
  | nil =>
      rw [List.splitOn_nil, List.mem_singleton] at h
      simp [h]
  | cons c text ih =>
      rw [List.splitOn_cons_eq_if_modifyHead] at h
      obtain ⟨first, rest, hsplit⟩ := List.exists_cons_of_ne_nil (List.splitOn_ne_nil '/' text)
      rw [hsplit] at h ih
      by_cases hc : c = '/'
      · simp only [hc, beq_self_eq_true, if_true, List.mem_cons] at h
        rcases h with rfl | rfl | h
        · simp
        · exact ih List.mem_cons_self
        · exact ih (List.mem_cons_of_mem _ h)
      · simp only [beq_eq_false_iff_ne.mpr hc, Bool.false_eq_true, if_false,
          List.modifyHead_cons, List.mem_cons] at h
        rcases h with rfl | h
        · rw [List.mem_cons, not_or]
          exact ⟨fun he => hc he.symm, ih List.mem_cons_self⟩
        · exact ih (List.mem_cons_of_mem _ h)

theorem exists_isPiece_of_mem_moves {path : Path} {c : Component} (h : c ∈ path.moves) :
    ∃ piece, IsPiece piece c := by
  obtain ⟨piece, hmem, hpiece⟩ := List.mem_filterMap.mp h
  exact ⟨piece, hpiece, slash_not_mem_of_mem_splitOn hmem⟩

/-- Moves are steps up and names. -/
theorem ne_of_mem_moves {path : Path} {c : Component} (h : c ∈ path.moves) :
    c ≠ root ∧ c ≠ current := by
  obtain ⟨piece, hpiece⟩ := exists_isPiece_of_mem_moves h
  rcases (ofPiece?_eq_some hpiece.1).2.2 with rfl | rfl <;> simp

/-- A piece that is a normal component is a name of an entry. -/
theorem isEntryName_of_isPiece {piece name : Text} (h : IsPiece piece (.normal name)) :
    IsEntryName name := by
  have htext : name = piece := h.text_eq
  rw [htext] at h ⊢
  exact h

/-- A path is absolute when a slash stands before a first piece. -/
theorem isAbsolute_iff (path : Path) :
    path.isAbsolute = true ↔ ∃ rest, rest ≠ [] ∧ path.pieces = [] :: rest := by
  obtain ⟨text⟩ := path
  cases text with
  | nil => simp [isAbsolute, pieces]
  | cons c text =>
      obtain ⟨first, rest, hsplit⟩ := List.exists_cons_of_ne_nil (List.splitOn_ne_nil '/' text)
      by_cases hc : c = '/'
      · simp [isAbsolute, pieces, List.splitOn_cons_eq_if_modifyHead, hc]
      · simp [isAbsolute, pieces, List.splitOn_cons_eq_if_modifyHead, hc, hsplit]

/-- The component at the very start of a path. -/
theorem leading_fst (path : Path) :
    path.leading.1 = if path.isAbsolute then [root]
      else if path.pieces.head? = some ['.'] then [current] else [] := by
  have habs := isAbsolute_iff path
  rw [leading]
  cases hp : path.pieces with
  | nil => exact absurd hp path.pieces_ne_nil
  | cons first rest =>
      rw [hp] at habs
      by_cases ha : path.isAbsolute = true
      · obtain ⟨rest', hne, heq⟩ := habs.mp ha
        obtain ⟨rfl, rfl⟩ := List.cons.inj heq
        simp [ha, hne]
      · have hroot : (first = [] && !rest.isEmpty) = false := by
          rw [Bool.eq_false_iff]
          intro h
          simp only [Bool.and_eq_true, decide_eq_true_eq, Bool.not_eq_true',
            List.isEmpty_eq_false_iff] at h
          exact ha (habs.mpr ⟨rest, h.2, by rw [h.1]⟩)
        by_cases hdot : first = ['.']
        · simp [ha, hdot]
        · simp [ha, hroot, hdot]

/-- The components of a path are its start and its moves. -/
theorem components_eq (path : Path) : path.components = path.leading.1 ++ path.moves := by
  have hmoves : path.leading.2.filterMap ofPiece? = path.moves := by
    rw [moves, leading]
    cases path.pieces with
    | nil => rfl
    | cons first rest =>
        dsimp only
        split
        · rename_i h
          simp only [Bool.and_eq_true, decide_eq_true_eq] at h
          rw [h.1, List.filterMap_cons_none ofPiece?_nil]
        · split
          · rename_i h
            simp [h, ofPiece?]
          · rfl
  rw [components, hmoves]

theorem foldl_followComponent_normal (location : Location) (names : List Name) :
    (names.map Component.normal).foldl followComponent location = location ++ names := by
  induction names generalizing location with
  | nil => simp
  | cons name names ih =>
      rw [List.map_cons, List.foldl_cons, ih, followComponent, List.append_assoc]
      rfl

/-- Made absolute, a path is the root, the way to where it starts, and its moves; the empty path
has no absolute form. -/
theorem absolute?_eq (workingDir : Location) (path : Path) :
    path.absolute? workingDir = if path.text = [] then none
      else some (root :: ((path.start workingDir).map normal ++ path.moves)) := by
  rw [absolute?]
  by_cases htext : path.text = []
  · simp [htext]
  have hmoves : path.moves.filter (· ≠ current) = path.moves := by
    apply List.filter_eq_self.mpr
    intro c hc
    exact decide_eq_true (ne_of_mem_moves hc).2
  have hparts : path.components.filter (· ≠ current) =
      (if path.isAbsolute then [root] else []) ++ path.moves := by
    rw [components_eq, List.filter_append, hmoves, leading_fst]
    by_cases ha : path.isAbsolute = true
    · simp [ha]
    · by_cases hdot : path.pieces.head? = some ['.'] <;> simp [ha, hdot]
  simp only [htext, if_false, hparts]
  by_cases ha : path.isAbsolute = true <;> simp [ha, start]

/-- The lexical location is the one that the path spells; the empty path has none. -/
theorem lexicalLocation?_eq (workingDir : Location) (path : Path) :
    path.lexicalLocation? workingDir =
      if path.text = [] then none else some (path.spelled workingDir) := by
  rw [lexicalLocation?, absolute?_eq]
  by_cases htext : path.text = []
  · simp [htext]
  · simp [htext, spelled, followComponent, foldl_followComponent_normal]

theorem join_of_relative (path : Path) {tail : Path} (h : tail.isAbsolute = false) :
    path.join tail = if path.text = [] ∨ path.text.getLast? = some '/'
      then ⟨path.text ++ tail.text⟩ else ⟨path.text ++ '/' :: tail.text⟩ := by
  simp [join, h]

/-- Relative paths stay apart behind a path. -/
theorem join_inj (path : Path) {tail other : Path} (h : tail.isAbsolute = false)
    (hother : other.isAbsolute = false) : path.join tail = path.join other ↔ tail = other := by
  obtain ⟨text⟩ := tail
  obtain ⟨more⟩ := other
  rw [join_of_relative path h, join_of_relative path hother]
  split <;> simp

/-- The pieces of a joined path. -/
theorem pieces_join (path : Path) {tail : Path} (h : tail.isAbsolute = false) :
    ∃ before, (path.join tail).pieces = before ++ tail.pieces ∧
      before.filterMap ofPiece? = path.moves ∧
      (path.text ≠ [] → before.head? = path.pieces.head? ∧ before ≠ []) := by
  rw [join_of_relative path h, moves]
  by_cases htext : path.text = []
  · refine ⟨[], ?_, ?_, fun hne => absurd htext hne⟩
    · simp [htext, pieces]
    · simp [pieces, htext, ofPiece?_nil]
  by_cases hlast : path.text.getLast? = some '/'
  · obtain ⟨front, hfront⟩ := List.getLast?_eq_some_iff.mp hlast
    have hpieces : path.pieces = front.splitOn '/' ++ [[]] := by
      rw [pieces, hfront, List.splitOn_append_cons_self, List.splitOn_nil]
    refine ⟨front.splitOn '/', ?_, ?_, fun _ => ⟨?_, List.splitOn_ne_nil _ _⟩⟩
    · rw [if_pos (Or.inr hlast), pieces, hfront, List.append_assoc, List.singleton_append,
        List.splitOn_append_cons_self]
      rfl
    · rw [hpieces]
      simp [ofPiece?_nil]
    · rw [hpieces, List.head?_append_of_ne_nil _ (List.splitOn_ne_nil _ _)]
  · refine ⟨path.pieces, ?_, rfl, fun _ => ⟨rfl, path.pieces_ne_nil⟩⟩
    rw [if_neg (by simp [htext, hlast]), pieces, List.splitOn_append_cons_self]
    rfl

theorem moves_join (path : Path) {tail : Path} (h : tail.isAbsolute = false) :
    (path.join tail).moves = path.moves ++ tail.moves := by
  obtain ⟨before, hpieces, hmoves, -⟩ := pieces_join path h
  rw [moves, hpieces, List.filterMap_append, hmoves]
  rfl

theorem isAbsolute_join (path : Path) {tail : Path} (h : tail.isAbsolute = false) :
    (path.join tail).isAbsolute = path.isAbsolute := by
  rw [join_of_relative path h]
  by_cases htext : path.text = []
  · simpa [htext, isAbsolute] using h
  · obtain ⟨c, rest, hc⟩ := List.exists_cons_of_ne_nil htext
    split <;> simp [isAbsolute, hc]

theorem start_join (workingDir : Location) (path : Path) {tail : Path}
    (h : tail.isAbsolute = false) : (path.join tail).start workingDir = path.start workingDir := by
  rw [start, isAbsolute_join path h, start]

/-- The location of a joined path is reached from the location of the first one. -/
theorem spelled_join (workingDir : Location) (path : Path) {tail : Path}
    (h : tail.isAbsolute = false) :
    (path.join tail).spelled workingDir =
      tail.moves.foldl followComponent (path.spelled workingDir) := by
  rw [spelled, start_join workingDir path h, moves_join path h, List.foldl_append]
  rfl

theorem isAbsolute_of_isPiece {piece : Text} {c : Component} (h : IsPiece piece c) :
    (Path.mk piece).isAbsolute = false := by
  rw [isAbsolute, decide_eq_false_iff_not]
  intro hhead
  exact h.2 (List.mem_of_mem_head? hhead)

theorem pieces_of_isPiece {piece : Text} {c : Component} (h : IsPiece piece c) :
    (Path.mk piece).pieces = [piece] :=
  List.splitOn_eq_singleton h.2

section Child

variable {piece : Text} {c : Component}

theorem pieces_child (path : Path) (h : IsPiece piece c) :
    ∃ before, (path.child piece).pieces = before ++ [piece] ∧
      before.filterMap ofPiece? = path.moves ∧
      (path.text ≠ [] → before.head? = path.pieces.head? ∧ before ≠ []) := by
  have hjoin := pieces_join path (isAbsolute_of_isPiece h)
  rwa [pieces_of_isPiece h] at hjoin

theorem getLast?_child (path : Path) (h : IsPiece piece c) :
    (path.child piece).text.getLast? ≠ some '/' := by
  have hend : ∃ front, (path.child piece).text = front ++ piece := by
    rw [child, join_of_relative path (isAbsolute_of_isPiece h)]
    split
    · exact ⟨path.text, rfl⟩
    · exact ⟨path.text ++ ['/'], by simp⟩
  obtain ⟨front, hfront⟩ := hend
  rw [hfront, List.getLast?_append_of_ne_nil _ h.ne_nil]
  intro hlast
  exact h.2 (List.mem_of_getLast? hlast)

theorem moves_child (path : Path) (h : IsPiece piece c) :
    (path.child piece).moves = path.moves ++ [c] := by
  rw [child, moves_join path (isAbsolute_of_isPiece h), moves, moves, pieces_of_isPiece h]
  simp [h.1]

theorem isAbsolute_child (path : Path) (h : IsPiece piece c) :
    (path.child piece).isAbsolute = path.isAbsolute :=
  isAbsolute_join path (isAbsolute_of_isPiece h)

theorem start_child (workingDir : Location) (path : Path) (h : IsPiece piece c) :
    (path.child piece).start workingDir = path.start workingDir :=
  start_join workingDir path (isAbsolute_of_isPiece h)

theorem spelled_child (workingDir : Location) (path : Path) (h : IsPiece piece c) :
    (path.child piece).spelled workingDir = followComponent (path.spelled workingDir) c := by
  rw [spelled, start_child workingDir path h, moves_child path h, List.foldl_append]
  rfl

theorem components_child (path : Path) (h : IsPiece piece c) :
    (path.child piece).components = path.components ++ [c] := by
  have hleading : (path.child piece).leading.1 = path.leading.1 := by
    rw [leading_fst, leading_fst, isAbsolute_child path h]
    obtain ⟨before, hpieces, -, hhead⟩ := pieces_child path h
    by_cases htext : path.text = []
    · have hchild : path.child piece = ⟨piece⟩ := by
        rw [child, join_of_relative path (isAbsolute_of_isPiece h), if_pos (Or.inl htext), htext]
        rfl
      have hdot : piece ≠ ['.'] := by
        rintro rfl
        cases h.1
      rw [hchild, pieces_of_isPiece h]
      simp [isAbsolute, pieces, htext, hdot]
    · obtain ⟨hsame, hne⟩ := hhead htext
      rw [hpieces, List.head?_append_of_ne_nil _ hne, hsame]
  rw [components_eq, components_eq, hleading, moves_child path h, List.append_assoc]

/-- What lies in front of an entry is the path it was put behind, in its plain spelling. -/
theorem parent?_child (path : Path) (h : IsPiece piece c) :
    (path.child piece).parent? = some (ofComponents path.components) := by
  rw [parent?, components_child path h, List.getLast?_concat, List.dropLast_concat]
  have hroot := h.ne_root
  cases c <;> first | rfl | exact absurd rfl hroot

end Child

theorem spelled_child_name (workingDir : Location) (path : Path) {name : Name}
    (h : IsEntryName name) :
    (path.child name).spelled workingDir = path.spelled workingDir ++ [name] :=
  spelled_child workingDir path h

theorem ne_nil_of_child (path : Path) {name : Name} (h : IsEntryName name) :
    (path.child name).text ≠ [] := by
  have hne : name ≠ [] := Component.IsPiece.ne_nil h
  rw [child, join_of_relative path (isAbsolute_of_isPiece h)]
  split <;> simp [hne]

/-- Paths of different names differ as paths. -/
theorem components_child_inj {path : Path} {a b : Name} (ha : IsEntryName a) (hb : IsEntryName b)
    (h : (path.child a).components = (path.child b).components) : a = b := by
  rw [components_child path ha, components_child path hb] at h
  have hlast := List.append_cancel_left h
  simpa using hlast

/-- The last component of a path, when it is a name, is the name of an entry. -/
theorem isEntryName_of_fileName? {path : Path} {name : Name} (h : path.fileName? = some name) :
    IsEntryName name := by
  have hlast : path.components.getLast? = some (.normal name) := by
    rw [fileName?] at h
    split at h
    · rename_i found hlast
      cases h
      exact hlast
    · cases h
  have hmem : Component.normal name ∈ path.components := List.mem_of_getLast? hlast
  rw [components_eq, List.mem_append, leading_fst] at hmem
  rcases hmem with hmem | hmem
  · split at hmem
    · simp at hmem
    · split at hmem <;> simp at hmem
  · obtain ⟨piece, hpiece⟩ := exists_isPiece_of_mem_moves hmem
    exact isEntryName_of_isPiece hpiece

end Path

end TreeFold
