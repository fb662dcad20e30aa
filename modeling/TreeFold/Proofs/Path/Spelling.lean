import Mathlib.Data.List.Induction
import TreeFold.Proofs.Path.Moves

/-!
# The plain spelling of components

Writing the components of a path out again drops empty pieces and dots. One component more is
written as an entry below the path of the others, so the plain spelling has the moves and the
start of the components it was made from.
-/

namespace TreeFold.Path

open Component

/-- The list can be the components of a path: the root or the current directory at most at the
start, and pieces behind it. -/
def AreComponents (parts : List Component) : Prop :=
  ∃ first rest, parts = first ++ rest ∧ (first = [] ∨ first = [root] ∨ first = [current]) ∧
    ∀ c ∈ rest, ∃ piece, IsPiece piece c

theorem areComponents (path : Path) : AreComponents path.components := by
  refine ⟨path.leading.1, path.moves, components_eq path, ?_, ?_⟩
  · rw [leading_fst]
    split
    · exact Or.inr (Or.inl rfl)
    · split
      · exact Or.inr (Or.inr rfl)
      · exact Or.inl rfl
  · intro c hc
    exact exists_isPiece_of_mem_moves hc

theorem intercalate_concat {α : Type*} (separator : List α) {texts : List (List α)}
    (h : texts ≠ []) (text : List α) :
    separator.intercalate (texts ++ [text]) = separator.intercalate texts ++ separator ++ text := by
  induction texts with
  | nil => exact absurd rfl h
  | cons first texts ih =>
      cases texts with
      | nil => simp [List.intercalate_cons_cons]
      | cons second texts =>
          have hrest := ih (List.cons_ne_nil _ _)
          rw [List.cons_append] at hrest
          rw [List.cons_append, List.cons_append, List.intercalate_cons_cons, hrest,
            List.intercalate_cons_cons]
          simp only [List.append_assoc]

/-- A path is its pieces with slashes between them. -/
theorem text_eq_intercalate (path : Path) : path.text = ['/'].intercalate path.pieces :=
  (List.intercalate_splitOn '/').symm

/-- Joined pieces are not empty and do not end in a slash. -/
theorem joinWith_slash_getLast? {texts : List Text} (hne : texts ≠ [])
    (h : ∀ text ∈ texts, text ≠ [] ∧ '/' ∉ text) :
    ∃ c, (Text.joinWith ['/'] texts).getLast? = some c ∧ c ≠ '/' := by
  rw [← List.dropLast_append_getLast hne]
  obtain ⟨hlast, hslash⟩ := h (texts.getLast hne) (List.getLast_mem hne)
  refine ⟨(texts.getLast hne).getLast hlast, ?_, ?_⟩
  · rw [Text.joinWith]
    by_cases hfront : texts.dropLast = []
    · rw [hfront, List.nil_append, List.intercalate_singleton]
      exact List.getLast?_eq_some_getLast hlast
    · rw [intercalate_concat _ hfront, List.getLast?_append_of_ne_nil _ hlast]
      exact List.getLast?_eq_some_getLast hlast
  · intro heq
    exact hslash (heq ▸ List.getLast_mem hlast)

/-- An entry below a path that ends in joined pieces is one piece more. -/
theorem child_joinWith (front : Text) {texts : List Text} (hne : texts ≠ [])
    (htexts : ∀ text ∈ texts, text ≠ [] ∧ '/' ∉ text) {piece : Text} {c : Component}
    (h : IsPiece piece c) :
    (Path.mk (front ++ Text.joinWith ['/'] texts)).child piece =
      ⟨front ++ Text.joinWith ['/'] (texts ++ [piece])⟩ := by
  obtain ⟨last, hlast, hslash⟩ := joinWith_slash_getLast? hne htexts
  have hfull : (front ++ Text.joinWith ['/'] texts).getLast? = some last := by
    rw [List.getLast?_append, hlast]
    rfl
  rw [child, join_of_relative _ (isAbsolute_of_isPiece h), if_neg, Text.joinWith, Text.joinWith,
    intercalate_concat _ hne]
  · simp
  · rw [hfull, not_or]
    constructor
    · intro hnil
      rw [show front ++ Text.joinWith ['/'] texts = [] from hnil] at hfull
      cases hfull
    · intro heq
      exact hslash (Option.some.inj heq)

theorem child_of_isEmpty_or_slash {text piece : Text} {c : Component}
    (htext : text = [] ∨ text = ['/']) (h : IsPiece piece c) :
    (Path.mk text).child piece = ⟨text ++ piece⟩ := by
  rw [child, join_of_relative _ (isAbsolute_of_isPiece h), if_pos]
  rcases htext with rfl | rfl
  · exact Or.inl rfl
  · exact Or.inr rfl

/-- A path that ends in a piece is an entry below what stands before the piece. -/
theorem exists_child {path : Path} {before : List Text} {piece : Text} {c : Component}
    (h : IsPiece piece c) (hpieces : path.pieces = before ++ [piece]) :
    ∃ dir : Path, path = dir.child piece := by
  obtain ⟨text⟩ := path
  have htext : text = ['/'].intercalate (before ++ [piece]) := by
    rw [← hpieces]
    exact text_eq_intercalate ⟨text⟩
  by_cases hbefore : before = []
  · refine ⟨⟨[]⟩, ?_⟩
    rw [child_of_isEmpty_or_slash (Or.inl rfl) h, htext, hbefore]
    simp
  · rw [intercalate_concat _ hbefore] at htext
    refine ⟨⟨['/'].intercalate before ++ ['/']⟩, ?_⟩
    rw [child, join_of_relative _ (isAbsolute_of_isPiece h), if_pos (Or.inr (by simp)), htext]

theorem ofComponents_of_head {parts : List Component} (h : parts.head? ≠ some root) :
    ofComponents parts = ⟨Text.joinWith ['/'] (parts.map Component.text)⟩ := by
  cases parts with
  | nil => rfl
  | cons c parts => cases c <;> first | rfl | exact absurd rfl h

/-- One component more is written as an entry below the path of the others. -/
theorem ofComponents_concat {parts : List Component} (hparts : AreComponents parts) {piece : Text}
    {c : Component} (h : IsPiece piece c) :
    ofComponents (parts ++ [c]) = (ofComponents parts).child piece := by
  obtain ⟨first, rest, rfl, hfirst, hrest⟩ := hparts
  have hroot : rest.head? ≠ some root := by
    intro hhead
    obtain ⟨p, hp⟩ := hrest root (List.mem_of_mem_head? hhead)
    exact hp.ne_root rfl
  have htexts : ∀ text ∈ rest.map Component.text, text ≠ [] ∧ '/' ∉ text := by
    intro text htext
    obtain ⟨d, hd, rfl⟩ := List.mem_map.mp htext
    obtain ⟨p, hp⟩ := hrest d hd
    rw [hp.text_eq]
    exact ⟨hp.ne_nil, hp.2⟩
  have hlone : [c].map Component.text = [piece] := by rw [List.map_singleton, h.text_eq]
  rcases hfirst with rfl | rfl | rfl
  · rw [List.nil_append]
    by_cases hne : rest = []
    · rw [hne, List.nil_append, ofComponents_of_head (by simpa using h.ne_root), hlone,
        Text.joinWith, List.intercalate_singleton]
      exact (child_of_isEmpty_or_slash (Or.inl rfl) h).symm
    · rw [ofComponents_of_head (by rwa [List.head?_append_of_ne_nil _ hne]),
        ofComponents_of_head hroot, List.map_append, hlone]
      exact (child_joinWith [] (by simpa using hne) htexts h).symm
  · by_cases hne : rest = []
    · have hwrite : ofComponents ([root] ++ [c]) = ⟨['/'] ++ piece⟩ := by
        simp [ofComponents, Text.joinWith, h.text_eq]
      rw [hne, List.append_nil, hwrite]
      exact (child_of_isEmpty_or_slash (Or.inr rfl) h).symm
    · have hwrite : ∀ tail, ofComponents ([root] ++ tail) =
          ⟨['/'] ++ Text.joinWith ['/'] (tail.map Component.text)⟩ := fun _ => rfl
      rw [List.append_assoc, hwrite, hwrite, List.map_append, hlone]
      exact (child_joinWith ['/'] (by simpa using hne) htexts h).symm
  · have hall : ∀ text ∈ ([current] ++ rest).map Component.text, text ≠ [] ∧ '/' ∉ text := by
      intro text htext
      rcases List.mem_cons.mp htext with rfl | htext
      · decide
      · exact htexts text htext
    rw [ofComponents_of_head (by simp), ofComponents_of_head (by simp), List.map_append, hlone]
    exact (child_joinWith [] (by simp) hall h).symm

/-- The plain spelling of components has these components. -/
theorem components_ofComponents {parts : List Component} (h : AreComponents parts) :
    (ofComponents parts).components = parts := by
  obtain ⟨first, rest, rfl, hfirst, hrest⟩ := h
  induction rest using List.reverseRecOn with
  | nil => rcases hfirst with rfl | rfl | rfl <;> rfl
  | append_singleton rest c ih =>
      obtain ⟨piece, hpiece⟩ := hrest c (by simp)
      have hfront : ∀ d ∈ rest, ∃ piece, IsPiece piece d := fun d hd => hrest d (by simp [hd])
      rw [← List.append_assoc, ofComponents_concat ⟨first, rest, rfl, hfirst, hfront⟩ hpiece,
        components_child _ hpiece, ih hfront]

/-- One component behind others is a piece. -/
theorem exists_isPiece_of_areComponents {parts : List Component} {c : Component}
    (hparts : parts ≠ []) (h : AreComponents (parts ++ [c])) :
    AreComponents parts ∧ ∃ piece, IsPiece piece c := by
  obtain ⟨first, rest, heq, hfirst, hrest⟩ := h
  rcases List.eq_nil_or_concat rest with rfl | ⟨front, last, rfl⟩
  · obtain ⟨d, parts, rfl⟩ := List.exists_cons_of_ne_nil hparts
    rcases hfirst with rfl | rfl | rfl <;> simp at heq
  · rw [List.concat_eq_append] at heq hrest
    rw [← List.append_assoc] at heq
    obtain ⟨rfl, hlast⟩ := List.append_inj' heq rfl
    obtain rfl : c = last := by simpa using hlast
    exact ⟨⟨first, front, rfl, hfirst, fun d hd => hrest d (by simp [hd])⟩,
      hrest c (by simp)⟩

theorem areComponents_nil : AreComponents [] :=
  ⟨[], [], rfl, Or.inl rfl, by simp⟩

/-- Without the last one, components are components. -/
theorem AreComponents.of_concat {parts : List Component} {c : Component}
    (h : AreComponents (parts ++ [c])) : AreComponents parts := by
  by_cases hparts : parts = []
  · rw [hparts]
    exact areComponents_nil
  · exact (exists_isPiece_of_areComponents hparts h).1

theorem ofComponents_ne_nil {parts : List Component} (hparts : parts ≠ [])
    (h : AreComponents parts) : (ofComponents parts).text ≠ [] := by
  intro htext
  have hpath : ofComponents parts = ⟨[]⟩ := congrArg Path.mk htext
  have hcomponents := components_ofComponents h
  rw [hpath] at hcomponents
  exact hparts (hcomponents.symm.trans rfl)

theorem moves_eq_filter (path : Path) :
    path.moves = path.components.filter fun c => c ≠ root ∧ c ≠ current := by
  have hmoves : path.moves.filter (fun c => c ≠ root ∧ c ≠ current) = path.moves := by
    apply List.filter_eq_self.mpr
    intro c hc
    exact decide_eq_true (ne_of_mem_moves hc)
  have hfirst : path.leading.1.filter (fun c => c ≠ root ∧ c ≠ current) = [] := by
    rw [leading_fst]
    split
    · rfl
    · split <;> rfl
  rw [components_eq, List.filter_append, hmoves, hfirst, List.nil_append]

/-- A path steps up when one of its moves does. -/
theorem parent_mem_moves_iff {path : Path} : .parent ∈ path.moves ↔ .parent ∈ path.components := by
  simp [moves_eq_filter]

theorem isAbsolute_iff_head? (path : Path) :
    path.isAbsolute = true ↔ path.components.head? = some root := by
  have hmoves : path.moves.head? ≠ some root := by
    intro hhead
    exact (ne_of_mem_moves (List.mem_of_mem_head? hhead)).1 rfl
  rw [components_eq, leading_fst]
  by_cases ha : path.isAbsolute = true
  · simp [ha]
  · by_cases hdot : path.pieces.head? = some ['.'] <;> simp [ha, hdot, hmoves]

/-- Fewer components make fewer moves. -/
theorem moves_of_leading {front path : Path} (h : front.components <+: path.components) :
    front.moves <+: path.moves := by
  rw [moves_eq_filter, moves_eq_filter]
  exact h.filter _

/-- As long as one component is left, the start is the same. -/
theorem start_of_leading (workingDir : Location) {front path : Path}
    (h : front.components <+: path.components) (hne : front.components ≠ []) :
    front.start workingDir = path.start workingDir := by
  obtain ⟨rest, hrest⟩ := h
  have habsolute : front.isAbsolute = path.isAbsolute := by
    rw [Bool.eq_iff_iff, isAbsolute_iff_head?, isAbsolute_iff_head?, ← hrest,
      List.head?_append_of_ne_nil _ hne]
  rw [start, start, habsolute]

/-- What lies in front of the last component is spelled plainly. -/
theorem parent?_eq_some {path above : Path} (h : path.parent? = some above) :
    above = ofComponents above.components ∧
      ∃ last, path.components = above.components ++ [last] ∧ last ≠ root := by
  rw [parent?] at h
  rcases List.eq_nil_or_concat path.components with hnil | ⟨front, last, hparts⟩
  · simp [hnil] at h
  · rw [List.concat_eq_append] at hparts
    rw [hparts, List.getLast?_concat, List.dropLast_concat] at h
    have hroot : last ≠ root := by
      rintro rfl
      cases h
    have habove : ofComponents front = above := by
      cases last <;> first | exact Option.some.inj h | exact absurd rfl hroot
    have hcomponents : above.components = front := by
      rw [← habove]
      exact components_ofComponents (hparts ▸ areComponents path).of_concat
    rw [hcomponents]
    exact ⟨habove.symm, last, hparts, hroot⟩

/-- What lies in front of the last component makes the moves before the last one. -/
theorem moves_parent? (workingDir : Location) {path above : Path} (h : path.parent? = some above) :
    above.moves <+: path.moves ∧ above.start workingDir = path.start workingDir := by
  obtain ⟨-, last, hparts, hroot⟩ := parent?_eq_some h
  have hleading : above.components <+: path.components := by
    rw [hparts]
    exact List.prefix_append above.components [last]
  refine ⟨moves_of_leading hleading, ?_⟩
  by_cases hfront : above.components = []
  · have habsolute : ∀ p : Path, p.components.head? ≠ some root →
        p.start workingDir = workingDir := by
      intro p hp
      rw [start, if_neg (fun ha => hp ((isAbsolute_iff_head? p).mp ha))]
    rw [habsolute above (by simp [hfront]), habsolute path (by simp [hparts, hfront, hroot])]
  · exact start_of_leading workingDir hleading hfront

/-- Above a path whose moves end in a name are the moves before it. -/
theorem exists_parent?_of_moves {path : Path} {front : List Component} {last : Name}
    (hmoves : path.moves = front ++ [normal last]) :
    ∃ above, path.parent? = some above ∧ above.moves = front := by
  have hcomponents : path.components = path.leading.1 ++ front ++ [normal last] := by
    rw [components_eq, hmoves, List.append_assoc]
  obtain ⟨above, habove⟩ : ∃ above, path.parent? = some above := by
    rw [parent?, hcomponents, List.getLast?_concat]
    exact ⟨_, rfl⟩
  obtain ⟨-, last', hparts, -⟩ := parent?_eq_some habove
  obtain ⟨-, hlast⟩ := List.append_inj' (hparts.symm.trans hcomponents) rfl
  have hfilter := moves_eq_filter path
  rw [hparts, List.filter_append, ← moves_eq_filter, hlast, hmoves,
    List.filter_cons_of_pos (by simp), List.filter_nil] at hfilter
  exact ⟨above, habove, (List.append_cancel_right hfilter).symm⟩

/-- Paths of the same components make the same moves from the same start. -/
theorem moves_eq_of_components_eq {a b : Path} (h : a.components = b.components) :
    a.moves = b.moves ∧ a.isAbsolute = b.isAbsolute := by
  constructor
  · rw [moves_eq_filter, moves_eq_filter, h]
  · rw [Bool.eq_iff_iff, isAbsolute_iff_head?, isAbsolute_iff_head?, h]

/-- The plain spelling of a path makes the same moves from the same start. -/
theorem moves_ofComponents (path : Path) :
    (ofComponents path.components).moves = path.moves ∧
      (ofComponents path.components).isAbsolute = path.isAbsolute :=
  moves_eq_of_components_eq (components_ofComponents (areComponents path))

end TreeFold.Path
