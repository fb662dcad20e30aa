import Mathlib.Data.List.TakeWhile
import TreeFold.Proofs.Path.Relative

/-!
# Paths below a path

The path of an entry further down is written by putting one name after the other behind the path of
a directory. Relative to that directory it is the names with slashes between them, however the
directory is spelled.
-/

namespace TreeFold.Path

open Component

/-- The path of the entry that names lead to from the directory at a path. -/
def descendant (path : Path) (names : List Name) : Path :=
  names.foldl child path

/-- The path that is written by names alone. -/
def ofNames (names : List Name) : Path :=
  ofComponents (names.map .normal)

variable {path base : Path} {name : Name} {names : List Name}

@[simp]
theorem descendant_nil (path : Path) : path.descendant [] = path := rfl

@[simp]
theorem descendant_cons (path : Path) (name : Name) (names : List Name) :
    path.descendant (name :: names) = (path.child name).descendant names := rfl

theorem descendant_append (path : Path) (names more : List Name) :
    path.descendant (names ++ more) = (path.descendant names).descendant more :=
  List.foldl_append

theorem descendant_concat (path : Path) (names : List Name) (name : Name) :
    path.descendant (names ++ [name]) = (path.descendant names).child name :=
  descendant_append path names [name]

theorem components_descendant (path : Path) (hnames : ∀ name ∈ names, IsEntryName name) :
    (path.descendant names).components = path.components ++ names.map .normal := by
  induction names generalizing path with
  | nil => exact (List.append_nil _).symm
  | cons name names ih =>
      obtain ⟨hname, hrest⟩ := List.forall_mem_cons.mp hnames
      rw [descendant_cons, ih _ hrest, components_child path hname, List.append_assoc]
      rfl

/-- A path of names that begins another one is made of the first of its names. -/
theorem prefix_of_components_descendant {others : List Name}
    (hnames : ∀ name ∈ names, IsEntryName name) (hothers : ∀ name ∈ others, IsEntryName name)
    (h : (path.descendant names).components <+: (path.descendant others).components) :
    names <+: others := by
  rw [components_descendant path hnames, components_descendant path hothers,
    List.prefix_append_right_inj] at h
  exact (List.prefix_map_iff_of_injective fun _ _ heq => normal.inj heq).mp h

theorem descendant_ne_nil (hpath : path.text ≠ []) (hnames : ∀ name ∈ names, IsEntryName name) :
    (path.descendant names).text ≠ [] := by
  induction names generalizing path with
  | nil => exact hpath
  | cons name names ih =>
      obtain ⟨hname, hrest⟩ := List.forall_mem_cons.mp hnames
      exact ih (ne_nil_of_child path hname) hrest

/-- The characters of a path below another one are slashes or come from that path or a name. -/
theorem mem_text_descendant (hnames : ∀ name ∈ names, IsEntryName name) {c : Char}
    (h : c ∈ (path.descendant names).text) :
    c ∈ path.text ∨ c = '/' ∨ ∃ name ∈ names, c ∈ name := by
  induction names generalizing path with
  | nil => exact Or.inl h
  | cons name names ih =>
      obtain ⟨hname, hrest⟩ := List.forall_mem_cons.mp hnames
      rcases ih hrest h with hchild | hslash | ⟨last, hlast, hc⟩
      · rw [child, join_of_relative path (isAbsolute_of_isPiece hname)] at hchild
        split at hchild
        · exact (List.mem_append.mp hchild).imp_right fun hc =>
            Or.inr ⟨name, List.mem_cons_self, hc⟩
        · refine (List.mem_append.mp hchild).imp_right fun hc => (List.mem_cons.mp hc).imp_right ?_
          exact fun hc => ⟨name, List.mem_cons_self, hc⟩
      · exact Or.inr (Or.inl hslash)
      · exact Or.inr (Or.inr ⟨last, List.mem_cons_of_mem _ hlast, hc⟩)

/-- Names that lead to the same path are the same. -/
theorem descendant_inj (path : Path) {others : List Name}
    (hnames : ∀ name ∈ names, IsEntryName name) (hothers : ∀ name ∈ others, IsEntryName name)
    (h : (path.descendant names).components = (path.descendant others).components) :
    names = others := by
  rw [components_descendant path hnames, components_descendant path hothers] at h
  exact List.map_injective_iff.mpr (fun _ _ heq => normal.inj heq) (List.append_cancel_left h)

theorem fileName?_child (path : Path) (hname : IsEntryName name) :
    (path.child name).fileName? = some name := by
  rw [fileName?, components_child path hname, List.getLast?_concat]

/-- The last of the names is the name of the path. -/
theorem fileName?_descendant (path : Path) (hnames : ∀ name ∈ names, IsEntryName name)
    (hne : names ≠ []) : (path.descendant names).fileName? = names.getLast? := by
  rcases List.eq_nil_or_concat names with rfl | ⟨front, name, rfl⟩
  · exact absurd rfl hne
  · rw [List.concat_eq_append] at hnames ⊢
    rw [descendant_concat, fileName?_child _ (hnames name (by simp)), List.getLast?_concat]

section Pieces

/-- The pieces are those of the path, but for one that a slash at its end leaves. -/
def WithoutSlash (path : Path) (pieces : List Text) : Prop :=
  path.pieces = pieces ∨ path.pieces = pieces ++ [[]]

theorem WithoutSlash.filterMap_eq {pieces : List Text} (h : path.WithoutSlash pieces) :
    pieces.filterMap ofPiece? = path.moves := by
  rw [moves]
  rcases h with h | h
  · rw [h]
  · rw [h, List.filterMap_append, List.filterMap_cons_none ofPiece?_nil, List.filterMap_nil,
      List.append_nil]

theorem pieces_child_of_getLast? (hlast : path.text.getLast? ≠ some '/') (hne : path.text ≠ [])
    (hname : IsEntryName name) : (path.child name).pieces = path.pieces ++ [name] := by
  rw [child, join_of_relative path (isAbsolute_of_isPiece hname), if_neg (by simp [hne, hlast]),
    pieces, List.splitOn_append_cons_self]
  exact congrArg (path.pieces ++ ·) (pieces_of_isPiece hname)

theorem exists_pieces_child (hne : path.text ≠ []) (hname : IsEntryName name) :
    ∃ before, (path.child name).pieces = before ++ [name] ∧ path.WithoutSlash before := by
  by_cases hlast : path.text.getLast? = some '/'
  · obtain ⟨front, hfront⟩ := List.getLast?_eq_some_iff.mp hlast
    refine ⟨front.splitOn '/', ?_, Or.inr ?_⟩
    · rw [child, join_of_relative path (isAbsolute_of_isPiece hname), if_pos (Or.inr hlast), pieces,
        hfront, List.append_assoc, List.singleton_append, List.splitOn_append_cons_self]
      exact congrArg (front.splitOn '/' ++ ·) (pieces_of_isPiece hname)
    · rw [pieces, hfront, List.splitOn_append_cons_self, List.splitOn_nil]
  · exact ⟨path.pieces, pieces_child_of_getLast? hlast hne hname, Or.inl rfl⟩

/-- The names are the last pieces of the path, behind the pieces of the directory. -/
theorem exists_pieces_descendant (hpath : path.text ≠ [])
    (hnames : ∀ name ∈ names, IsEntryName name) (hne : names ≠ []) :
    ∃ before, (path.descendant names).pieces = before ++ names ∧ path.WithoutSlash before := by
  induction names using List.reverseRecOn with
  | nil => exact absurd rfl hne
  | append_singleton names name ih =>
      have hname := hnames name (by simp)
      have hfront : ∀ other ∈ names, IsEntryName other := fun other hother =>
        hnames other (List.mem_append_left _ hother)
      rw [descendant_concat]
      rcases List.eq_nil_or_concat names with rfl | ⟨above, last, rfl⟩
      · exact exists_pieces_child hpath hname
      · obtain ⟨before, hpieces, hbefore⟩ := ih hfront (by simp)
        have hlast := hfront last (by simp)
        refine ⟨before, ?_, hbefore⟩
        rw [List.concat_eq_append] at hpieces ⊢
        rw [pieces_child_of_getLast? _ _ hname, hpieces, List.append_assoc]
        · rw [descendant_concat]
          exact getLast?_child _ hlast
        · rw [descendant_concat]
          exact ne_nil_of_child _ hlast

end Pieces

section Relative

/-- The root or the current directory at the start of a path. -/
theorem leading_fst_eq_filter (path : Path) :
    path.leading.1 = path.components.filter fun c => c = root ∨ c = current := by
  have hfirst : path.leading.1.filter (fun c => c = root ∨ c = current) = path.leading.1 := by
    rw [leading_fst]
    split
    · rfl
    · split <;> rfl
  have hmoves : path.moves.filter (fun c => c = root ∨ c = current) = [] := by
    apply List.filter_eq_nil_iff.mpr
    intro c hc
    simpa using ne_of_mem_moves hc
  rw [components_eq, List.filter_append, hfirst, hmoves, List.append_nil]

/-- Behind the start of a path are its pieces, but for one that does not count. -/
theorem exists_leading_snd (path : Path) :
    (∃ skipped, path.pieces = skipped ++ path.leading.2 ∧ skipped.filterMap ofPiece? = []) ∧
      path.leading.2.filterMap ofPiece? = path.moves := by
  have hcut : ∃ skipped, path.pieces = skipped ++ path.leading.2 ∧
      skipped.filterMap ofPiece? = [] := by
    rw [leading]
    cases path.pieces with
    | nil => exact ⟨[], rfl, rfl⟩
    | cons first rest =>
        dsimp only
        split
        · rename_i h
          simp only [Bool.and_eq_true, decide_eq_true_eq] at h
          exact ⟨[[]], by rw [h.1]; rfl, rfl⟩
        · split
          · rename_i hdot
            exact ⟨[['.']], by rw [hdot]; rfl, rfl⟩
          · exact ⟨[], rfl, rfl⟩
  refine ⟨hcut, ?_⟩
  obtain ⟨skipped, hpieces, hskipped⟩ := hcut
  rw [moves, hpieces, List.filterMap_append, hskipped, List.nil_append]

/-- The components of a path that is not empty are not empty. -/
theorem components_ne_nil (h : path.text ≠ []) : path.components ≠ [] := by
  intro hnil
  rw [components_eq, List.append_eq_nil_iff] at hnil
  obtain ⟨hfirst, hmoves⟩ := hnil
  rw [leading_fst] at hfirst
  split at hfirst
  · cases hfirst
  rename_i habsolute
  split at hfirst
  · cases hfirst
  rename_i hdot
  obtain ⟨first, rest, hpieces⟩ := List.exists_cons_of_ne_nil path.pieces_ne_nil
  have hskip : ofPiece? first = none := by
    rw [moves, hpieces] at hmoves
    exact List.filterMap_eq_nil_iff.mp hmoves first List.mem_cons_self
  -- The first piece is empty, so it is the only one.
  have hempty : first = [] := by
    rw [hpieces] at hdot
    rw [ofPiece?] at hskip
    by_contra hne
    rw [if_neg (by simpa [hne] using hdot)] at hskip
    split at hskip <;> cases hskip
  have hlone : rest = [] := by
    by_contra hne
    exact habsolute ((isAbsolute_iff path).mpr ⟨rest, hne, by rw [hpieces, hempty]⟩)
  apply h
  rw [text_eq_intercalate, hpieces, hempty, hlone]
  rfl

/-- What is left behind components are the pieces after those that make them. -/
theorem exists_afterComponents? {parts : List Component} {pieces : List Text}
    (h : parts <+: pieces.filterMap ofPiece?) :
    ∃ front left, pieces = front ++ left ∧ front.filterMap ofPiece? = parts ∧
      afterComponents? parts pieces = some left := by
  induction pieces generalizing parts with
  | nil =>
      rw [List.filterMap_nil, List.prefix_nil] at h
      exact ⟨[], [], rfl, h.symm, by rw [h]; rfl⟩
  | cons piece pieces ih =>
      cases parts with
      | nil => exact ⟨[], piece :: pieces, rfl, rfl, rfl⟩
      | cons c parts =>
          rw [afterComponents?]
          cases hpiece : ofPiece? piece with
          | none =>
              rw [List.filterMap_cons_none hpiece] at h
              obtain ⟨front, left, rfl, hfront, hleft⟩ := ih h
              refine ⟨piece :: front, left, rfl, ?_, hleft⟩
              rw [List.filterMap_cons_none hpiece, hfront]
          | some found =>
              rw [List.filterMap_cons_some hpiece, List.cons_prefix_cons] at h
              obtain ⟨rfl, h⟩ := h
              obtain ⟨front, left, rfl, hfront, hleft⟩ := ih h
              refine ⟨piece :: front, left, rfl, ?_, ?_⟩
              · rw [List.filterMap_cons_some hpiece, hfront]
              · simpa using hleft

/-- Relative to a path whose components it begins with, a path is what its pieces leave. -/
theorem exists_relativeTo? (hbase : base.components ≠ [])
    (h : base.components <+: path.components) :
    ∃ front left, path.leading.2 = front ++ left ∧
      base.components = path.leading.1 ++ front.filterMap ofPiece? ∧
      path.relativeTo? base = some (ofPieces left) := by
  obtain ⟨-, hmoves⟩ := exists_leading_snd path
  have hshape : path.leading.1 = [] ∨ ∃ s, path.leading.1 = [s] := by
    rw [leading_fst]
    split
    · exact Or.inr ⟨_, rfl⟩
    · split
      · exact Or.inr ⟨_, rfl⟩
      · exact Or.inl rfl
  obtain ⟨c, rest, hparts⟩ := List.exists_cons_of_ne_nil hbase
  rw [hparts, components_eq path, ← hmoves] at h
  rw [relativeTo?, hparts]
  rcases hshape with hnone | ⟨s, hone⟩
  · rw [hnone, List.nil_append] at h
    obtain ⟨front, left, hpieces, hfront, hleft⟩ := exists_afterComponents? h
    refine ⟨front, left, hpieces, ?_, ?_⟩
    · rw [hnone, hfront, List.nil_append]
    · simp only [hnone, hleft, Option.map_some]
  · rw [hone, List.singleton_append, List.cons_prefix_cons] at h
    obtain ⟨rfl, h⟩ := h
    obtain ⟨front, left, hpieces, hfront, hleft⟩ := exists_afterComponents? h
    refine ⟨front, left, hpieces, ?_, ?_⟩
    · rw [hone, hfront, List.singleton_append]
    · simp only [hone, hleft, Option.map_some, if_true]

theorem map_text_normal (names : List Name) : (names.map normal).map Component.text = names := by
  rw [List.map_map]
  exact List.map_id'' (fun _ => rfl) names

theorem ofNames_eq (names : List Name) : ofNames names = ⟨Text.joinWith ['/'] names⟩ := by
  rw [ofNames, ofComponents, map_text_normal]
  cases names <;> simp

/-- Pieces in front that do not count are dropped. -/
theorem ofPieces_append {skipped : List Text} (hskipped : skipped.filterMap ofPiece? = [])
    (hnames : ∀ name ∈ names, IsEntryName name) : ofPieces (skipped ++ names) = ofNames names := by
  have hdrop : ∀ {texts : List Text}, (∀ text ∈ texts, IsEntryName text) →
      texts.dropWhile isSkipped = texts := by
    intro texts htexts
    cases texts with
    | nil => rfl
    | cons text texts =>
        rw [List.dropWhile_cons_of_neg]
        simp [isSkipped, (htexts text List.mem_cons_self).1]
  have hfront : skipped.dropWhile isSkipped = [] := by
    apply List.dropWhile_eq_nil_iff.mpr
    intro piece hpiece
    rw [isSkipped, List.filterMap_eq_nil_iff.mp hskipped piece hpiece]
    rfl
  rw [ofPieces, List.dropWhile_append, hfront, List.isEmpty_nil, if_pos rfl, hdrop hnames,
    hdrop fun name hname => hnames name (List.mem_reverse.mp hname), List.reverse_reverse,
    ofNames_eq]

/-- Names stand at the end of what is behind pieces that count the same. -/
theorem exists_skipped {front left before : List Text} (h : front ++ left = before ++ names)
    (hsame : front.filterMap ofPiece? = before.filterMap ofPiece?)
    (hnames : ∀ name ∈ names, IsEntryName name) :
    ∃ skipped, left = skipped ++ names ∧ skipped.filterMap ofPiece? = [] := by
  rcases List.append_eq_append_iff.mp h with ⟨skipped, rfl, hleft⟩ | ⟨more, rfl, hmore⟩
  · refine ⟨skipped, hleft, ?_⟩
    rwa [List.filterMap_append, List.self_eq_append_right] at hsame
  · rw [List.filterMap_append, List.append_right_eq_self] at hsame
    have hnil : more = [] := by
      apply List.eq_nil_iff_forall_not_mem.mpr
      intro name hname
      have hnone := List.filterMap_eq_nil_iff.mp hsame name hname
      have hentry := hnames name (hmore ▸ List.mem_append_left left hname)
      rw [hentry.1] at hnone
      cases hnone
    exact ⟨[], by rw [hmore, hnil]; rfl, rfl⟩

/-- Relative to a directory, a path below it is the names that lead to it. -/
theorem relativeTo?_descendant (hroot : base.text ≠ []) (hnames : ∀ name ∈ names, IsEntryName name)
    (hne : names ≠ []) : (base.descendant names).relativeTo? base = some (ofNames names) := by
  have hcomponents := components_descendant base hnames
  obtain ⟨front, left, hbehind, hfront, hrelative⟩ :=
    exists_relativeTo? (components_ne_nil hroot) ⟨names.map .normal, hcomponents.symm⟩
  obtain ⟨⟨skipped, hpieces, hskipped⟩, -⟩ := exists_leading_snd (base.descendant names)
  obtain ⟨before, hbefore, hwithout⟩ := exists_pieces_descendant hroot hnames hne
  have hstart : (base.descendant names).leading.1 = base.leading.1 := by
    rw [leading_fst_eq_filter, leading_fst_eq_filter, hcomponents, List.filter_append,
      List.append_right_eq_self, List.filter_eq_nil_iff]
    intro c hc
    obtain ⟨name, -, rfl⟩ := List.mem_map.mp hc
    simp
  rw [hstart, components_eq, List.append_cancel_left_eq] at hfront
  have hsplit : (skipped ++ front) ++ left = before ++ names := by
    rw [List.append_assoc, ← hbehind, ← hpieces, hbefore]
  have hsame : (skipped ++ front).filterMap ofPiece? = before.filterMap ofPiece? := by
    rw [List.filterMap_append, hskipped, hwithout.filterMap_eq, hfront, List.nil_append]
  obtain ⟨dropped, rfl, hdropped⟩ := exists_skipped hsplit hsame hnames
  rw [hrelative, ofPieces_append hdropped hnames]

/-- Seen from the directory that a walk starts from, a path below is the names that lead to it. -/
theorem relativeOrSelf_descendant (hroot : base.text ≠ [])
    (hnames : ∀ name ∈ names, IsEntryName name) (hne : names ≠ []) :
    (base.descendant names).relativeOrSelf base = ofNames names := by
  rw [relativeOrSelf, relativeTo?_descendant hroot hnames hne, Option.getD_some]

/-- A path of names is put behind a directory with its own text, behind a slash at most. -/
theorem exists_join_ofNames (path : Path) :
    ∃ front, ∀ names : List Name, (∀ name ∈ names, IsEntryName name) →
      path.join (ofNames names) = ⟨front ++ Text.joinWith ['/'] names⟩ := by
  refine ⟨if path.text = [] ∨ path.text.getLast? = some '/' then path.text else path.text ++ ['/'],
    fun names hnames => ?_⟩
  rw [ofNames, join_of_relative path (isAbsolute_ofNames hnames), ← ofNames, ofNames_eq]
  split <;> simp

/-- The names that lead to a path below a directory lead there from the directory at once. -/
theorem join_ofNames (path : Path) (hnames : ∀ name ∈ names, IsEntryName name) (hne : names ≠ []) :
    path.join (ofNames names) = path.descendant names := by
  obtain ⟨front, hfront⟩ := exists_join_ofNames path
  induction names using List.reverseRecOn with
  | nil => exact absurd rfl hne
  | append_singleton names name ih =>
      have hbefore : ∀ name ∈ names, IsEntryName name := fun name hname =>
        hnames name (List.mem_append_left _ hname)
      have hname : IsEntryName name := hnames name (by simp)
      rw [descendant_concat]
      rcases List.eq_nil_or_concat names with rfl | ⟨_, _, hconcat⟩
      · rw [List.nil_append, ofNames_eq, Text.joinWith, List.intercalate_singleton]
        rfl
      · have hsome : names ≠ [] := by simp [hconcat]
        have hpieces : ∀ name ∈ names, name ≠ [] ∧ '/' ∉ name := fun name hname =>
          ⟨(hbefore name hname).ne_nil, (hbefore name hname).2⟩
        rw [← ih hbefore hsome, hfront _ hnames, hfront _ hbefore,
          child_joinWith front hsome hpieces hname]

end Relative

end TreeFold.Path
