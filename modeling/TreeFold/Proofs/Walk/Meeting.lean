import TreeFold.Proofs.FileSystem.Children
import TreeFold.Proofs.FileSystem.Opening
import TreeFold.Proofs.Ignore.Silence
import TreeFold.Walk

/-!
# What a walk meets

A walk meets the entry that names lead to when it comes through every directory on the way: it can
open each of them, hides none of the names, prunes none of the directories, and reaches that deep.
This is shown for walks that no ignore file steers.
-/

namespace TreeFold.Walker

open TreeFold.Path TreeFold.FileSystem

/-- Whether hiding leaves out a name. -/
def hides (walker : Walker) (name : Name) : Bool :=
  !walker.includeHidden && isHidden name

/-- No ignore file steers the walk. -/
def Unsteered (walker : Walker) (fs : FileSystem) : Prop :=
  walker.respectIgnoreFiles = true → fs.HoldsNoIgnoreFiles

/-- The walk that is at the directory in some depth meets an entry, to which the names lead. -/
structure Meets (walker : Walker) (fs : FileSystem) (base directory : Path) (location : Location)
    (depth : Nat) (names : List Name) (entry : Entry) : Prop where
  isEntry : fs.get? (location ++ names) = some entry
  reached : walker.reaches (depth + names.length) = true
  opens : ∀ front, front <+: names → front ≠ names →
    fs.isDirectory (directory.descendant front) = true
  shown : ∀ name ∈ names, walker.hides name = false
  spared : ∀ front, front <+: names → front ≠ [] → (front = names → entry = .directory) →
    walker.prunes base (directory.descendant front) = false

variable {walker : Walker} {fs : FileSystem} {base directory start path : Path}
  {location : Location} {depth levels : Nat} {chain : Ignore.Chain} {name : Name}
  {names : List Name} {entry : Entry}

theorem Meets.isEntryName (h : walker.Meets fs base directory location depth names entry)
    (htree : fs.IsTree) : ∀ name ∈ names, IsEntryName name :=
  htree.isEntryName_behind h.isEntry

theorem reaches_of_le {few many : Nat} (hle : few ≤ many) (h : walker.reaches many = true) :
    walker.reaches few = true := by
  rw [reaches, Option.all_eq_true] at h ⊢
  intro most hmost
  have hmany := h most hmost
  rw [decide_eq_true_eq] at hmany ⊢
  exact hle.trans hmany

/-- Without rules only hiding leaves out entries. -/
theorem leavesOut_eq (hchain : walker.respectIgnoreFiles = true → chain.Silent) (path : Path)
    (name : Name) (isDirectory : Bool) :
    walker.leavesOut chain path name isDirectory = walker.hides name := by
  rw [leavesOut, hides]
  by_cases hrespect : walker.respectIgnoreFiles = true
  · rw [if_pos hrespect, (hchain hrespect).verdict_eq]
  · rw [if_neg hrespect]

section Step

theorem meets_singleton_iff :
    walker.Meets fs base directory location depth [name] entry ↔
      walker.reaches (depth + 1) = true ∧ fs.isDirectory directory = true ∧
        fs.get? (location ++ [name]) = some entry ∧ walker.hides name = false ∧
          (entry = .directory → walker.prunes base (directory.child name) = false) := by
  constructor
  · intro h
    refine ⟨h.reached, h.opens [] List.nil_prefix (by simp), h.isEntry,
      h.shown name List.mem_cons_self, fun hdirectory => ?_⟩
    exact h.spared [name] (List.prefix_refl _) (by simp) fun _ => hdirectory
  · rintro ⟨hreached, hopen, hget, hshown, hspared⟩
    refine ⟨hget, hreached, ?_, fun other hother => ?_, ?_⟩
    · intro front hfront hne
      rcases List.prefix_cons_iff.mp hfront with rfl | ⟨rest, rfl, hrest⟩
      · exact hopen
      · rw [List.prefix_nil] at hrest
        exact absurd (by rw [hrest]) hne
    · rwa [List.mem_singleton.mp hother]
    · intro front hfront hne hentry
      rcases List.prefix_cons_iff.mp hfront with rfl | ⟨rest, rfl, hrest⟩
      · exact absurd rfl hne
      · rw [List.prefix_nil] at hrest
        subst hrest
        exact hspared (hentry rfl)

/-- The walk meets what lies deeper by entering a directory first. -/
theorem meets_cons_iff (htree : fs.IsTree) (hne : names ≠ []) :
    walker.Meets fs base directory location depth (name :: names) entry ↔
      walker.reaches (depth + 1) = true ∧ fs.isDirectory directory = true ∧
        fs.get? (location ++ [name]) = some .directory ∧ walker.hides name = false ∧
          walker.prunes base (directory.child name) = false ∧
            walker.Meets fs base (directory.child name) (location ++ [name]) (depth + 1) names
              entry := by
  have hdepth : depth + (name :: names).length = depth + 1 + names.length := by
    rw [List.length_cons]
    omega
  constructor
  · intro h
    have hget := h.isEntry
    rw [List.append_cons] at hget
    refine ⟨reaches_of_le ?_ h.reached, h.opens [] List.nil_prefix (by simp),
      htree.get?_of_below hne hget, h.shown name List.mem_cons_self,
      h.spared [name] ⟨names, rfl⟩ (by simp) fun heq => absurd (List.cons.inj heq).2.symm hne,
      hget, hdepth ▸ h.reached, ?_, ?_, ?_⟩
    · rw [hdepth]
      exact Nat.le_add_right _ _
    · intro front hfront hdiffer
      exact h.opens (name :: front) (List.cons_prefix_cons.mpr ⟨rfl, hfront⟩) fun heq =>
        hdiffer (List.cons.inj heq).2
    · intro other hother
      exact h.shown other (List.mem_cons_of_mem _ hother)
    · intro front hfront hnil hentry
      exact h.spared (name :: front) (List.cons_prefix_cons.mpr ⟨rfl, hfront⟩)
        (List.cons_ne_nil _ _) fun heq => hentry (List.cons.inj heq).2
  · rintro ⟨-, hopen, -, hshown, hspared, h⟩
    refine ⟨by rw [List.append_cons]; exact h.isEntry, hdepth ▸ h.reached, ?_, ?_, ?_⟩
    · intro front hfront hdiffer
      rcases List.prefix_cons_iff.mp hfront with rfl | ⟨rest, rfl, hrest⟩
      · exact hopen
      · exact h.opens rest hrest fun heq => hdiffer (by rw [heq])
    · exact List.forall_mem_cons.mpr ⟨hshown, h.shown⟩
    · intro front hfront hnil hentry
      rcases List.prefix_cons_iff.mp hfront with rfl | ⟨rest, rfl, hrest⟩
      · exact absurd rfl hnil
      · by_cases hlone : rest = []
        · rw [hlone]
          exact hspared
        · exact h.spared rest hrest hlone fun heq => hentry (by rw [heq])

/-- The walk meets what lies below a directory by meeting the directory, and going on from there. -/
theorem meets_append_iff (htree : fs.IsTree) {above : List Name} (habove : above ≠ [])
    (hne : names ≠ []) :
    walker.Meets fs base directory location depth (above ++ names) entry ↔
      walker.Meets fs base directory location depth above .directory ∧
        walker.Meets fs base (directory.descendant above) (location ++ above)
          (depth + above.length) names entry := by
  induction above generalizing directory location depth with
  | nil => exact absurd rfl habove
  | cons name above ih =>
      have hstep : name :: above ++ names = name :: (above ++ names) := rfl
      have hdepth : depth + (name :: above).length = depth + 1 + above.length := by
        rw [List.length_cons]
        omega
      rw [hstep, meets_cons_iff htree (List.append_ne_nil_of_right_ne_nil above hne), hdepth,
        descendant_cons, List.append_cons location name above]
      by_cases hlone : above = []
      · subst hlone
        rw [meets_singleton_iff]
        simp only [List.nil_append, List.append_nil, descendant_nil, List.length_nil, Nat.add_zero,
          true_implies, and_assoc]
      · rw [ih hlone, meets_cons_iff htree hlone]
        simp only [and_assoc]

/-- Without a limit the depth does not matter. -/
theorem Meets.atDepth (h : walker.Meets fs base directory location depth names entry)
    (hdepth : walker.maxDepth? = none) (other : Nat) :
    walker.Meets fs base directory location other names entry :=
  ⟨h.isEntry, by rw [reaches, hdepth]; rfl, h.opens, h.shown, h.spared⟩

/-- What a walk lists for one entry of a directory: the entry, and what lies behind it. -/
def visit (walker : Walker) (fs : FileSystem) (base : Path) (levels : Nat) (chain : Ignore.Chain)
    (directory : Path) (location : Location) (depth : Nat) : Name × Entry → List Walked
  | (name, entry) =>
    if walker.leavesOut chain (directory.child name) name (entry = .directory) then []
    else if entry = .directory then
      if walker.prunes base (directory.child name) then []
      else
        ⟨directory.child name, entry⟩ ::
          walker.descend fs base levels
            (if walker.respectIgnoreFiles then chain.enter fs (directory.child name) else chain)
            (directory.child name) (location ++ [name]) (depth + 1)
    else [⟨directory.child name, entry⟩]

/-- One level of a walk visits the entries of the directory. -/
theorem descend_succ (walker : Walker) (fs : FileSystem) (base : Path) (levels : Nat)
    (chain : Ignore.Chain) (directory : Path) (location : Location) (depth : Nat) :
    walker.descend fs base (levels + 1) chain directory location depth =
      if !walker.reaches (depth + 1) || !fs.isDirectory directory then []
      else (fs.children location).flatMap
        (walker.visit fs base levels chain directory location depth) := by
  rw [descend]
  rfl

theorem mem_visit_iff (hchain : walker.respectIgnoreFiles = true → chain.Silent) {held : Entry} :
    ⟨path, entry⟩ ∈ walker.visit fs base levels chain directory location depth (name, held) ↔
      walker.hides name = false ∧
        (held = .directory → walker.prunes base (directory.child name) = false) ∧
          (path = directory.child name ∧ entry = held ∨
            held = .directory ∧
              ⟨path, entry⟩ ∈ walker.descend fs base levels
                (if walker.respectIgnoreFiles then chain.enter fs (directory.child name) else chain)
                (directory.child name) (location ++ [name]) (depth + 1)) := by
  rw [visit, leavesOut_eq hchain]
  cases hhides : walker.hides name with
  | true => simp
  | false =>
      by_cases hdirectory : held = .directory
      · cases hprunes : walker.prunes base (directory.child name) with
        | true => simp [hdirectory]
        | false => simp [hdirectory]
      · simp [hdirectory]

theorem mem_descend_succ_iff (hkeys : fs.Unambiguous) :
    ⟨path, entry⟩ ∈ walker.descend fs base (levels + 1) chain directory location depth ↔
      walker.reaches (depth + 1) = true ∧ fs.isDirectory directory = true ∧
        ∃ name held, fs.get? (location ++ [name]) = some held ∧
          ⟨path, entry⟩ ∈ walker.visit fs base levels chain directory location depth
            (name, held) := by
  rw [descend_succ]
  cases walker.reaches (depth + 1) with
  | false => simp
  | true =>
      cases fs.isDirectory directory with
      | false => simp
      | true => simp [hkeys.mem_children_iff]

end Step

section Run

/-- Chains without rules stay without rules when a directory is entered. -/
theorem silent_inside (hrules : walker.Unsteered fs)
    (hchain : walker.respectIgnoreFiles = true → chain.Silent) (directory : Path) :
    walker.respectIgnoreFiles = true →
      (if walker.respectIgnoreFiles then chain.enter fs directory else chain).Silent := by
  intro hrespect
  rw [if_pos hrespect]
  exact (hchain hrespect).enter (hrules hrespect) directory

/-- A walk through some levels lists just what it meets in them. -/
theorem mem_descend_iff (htree : fs.IsTree) (hkeys : fs.Unambiguous)
    (hrules : walker.Unsteered fs) (hchain : walker.respectIgnoreFiles = true → chain.Silent) :
    ⟨path, entry⟩ ∈ walker.descend fs base levels chain directory location depth ↔
      ∃ names, names ≠ [] ∧ names.length ≤ levels ∧ path = directory.descendant names ∧
        walker.Meets fs base directory location depth names entry := by
  -- Each level is walked from a directory further down, with the chain that holds there.
  induction levels generalizing chain directory location depth with
  | zero =>
      refine iff_of_false List.not_mem_nil ?_
      rintro ⟨names, hne, hlength, -⟩
      exact hne (List.length_eq_zero_iff.mp (Nat.le_zero.mp hlength))
  | succ levels ih =>
      simp only [mem_descend_succ_iff hkeys, mem_visit_iff hchain]
      constructor
      · rintro ⟨hdeep, hopen, name, held, hget, hshown, hspared, hfound⟩
        rcases hfound with ⟨rfl, rfl⟩ | ⟨rfl, hinside⟩
        · exact ⟨[name], by simp, by simp, rfl,
            meets_singleton_iff.mpr ⟨hdeep, hopen, hget, hshown, hspared⟩⟩
        · obtain ⟨names, hne, hlength, rfl, hmeets⟩ :=
            (ih (silent_inside hrules hchain _)).mp hinside
          exact ⟨name :: names, by simp, Nat.succ_le_succ hlength, rfl,
            (meets_cons_iff htree hne).mpr ⟨hdeep, hopen, hget, hshown, hspared rfl, hmeets⟩⟩
      · rintro ⟨names, hne, hlength, rfl, hmeets⟩
        obtain ⟨name, rest, rfl⟩ := List.exists_cons_of_ne_nil hne
        by_cases hrest : rest = []
        · subst hrest
          obtain ⟨hdeep, hopen, hget, hshown, hspared⟩ := meets_singleton_iff.mp hmeets
          exact ⟨hdeep, hopen, name, entry, hget, hshown, hspared, Or.inl ⟨rfl, rfl⟩⟩
        · obtain ⟨hdeep, hopen, hget, hshown, hspared, hinside⟩ :=
            (meets_cons_iff htree hrest).mp hmeets
          exact ⟨hdeep, hopen, name, .directory, hget, hshown, fun _ => hspared, Or.inr ⟨rfl,
            (ih (silent_inside hrules hchain _)).mpr
              ⟨rest, hrest, Nat.le_of_succ_le_succ hlength, rfl, hinside⟩⟩⟩

/-- The walk below a directory lists just what it meets there. -/
theorem mem_below_iff (htree : fs.IsTree) (hkeys : fs.Unambiguous)
    (hrules : walker.Unsteered fs) (hstat : fs.stat start = .ok (location, .directory)) :
    ⟨path, entry⟩ ∈ walker.below fs base start ↔
      ∃ names, names ≠ [] ∧ path = start.descendant names ∧
        walker.Meets fs base start location 0 names entry := by
  have hchain : walker.respectIgnoreFiles = true →
      (if walker.respectIgnoreFiles then .atStart fs start location
        else ⟨[], [], location⟩ : Ignore.Chain).Silent := by
    intro hrespect
    rw [if_pos hrespect]
    exact Ignore.Chain.silent_atStart (hrules hrespect) start location
  rw [below, hstat]
  dsimp only
  rw [mem_descend_iff htree hkeys hrules hchain]
  refine exists_congr fun names => and_congr_right fun _ => ?_
  refine and_iff_right_of_imp fun ⟨_, hmeets⟩ => ?_
  have hheight := length_le_height hmeets.isEntry
  rw [List.length_append] at hheight
  exact Nat.le_of_add_left_le hheight

end Run

section Distinct

variable (htree : fs.IsTree) (hkeys : fs.Unambiguous) (hrules : walker.Unsteered fs)
include htree hkeys hrules

/-- What is listed for an entry lies below the path of the entry or is the entry. -/
theorem exists_of_mem_visit (hchain : walker.respectIgnoreFiles = true → chain.Silent)
    {walked : Walked} (hget : fs.get? (location ++ [name]) = some entry)
    (h : walked ∈ walker.visit fs base levels chain directory location depth (name, entry)) :
    ∃ names, (∀ other ∈ name :: names, IsEntryName other) ∧
      walked.path = directory.descendant (name :: names) := by
  obtain ⟨-, -, ⟨hpath, -⟩ | ⟨-, hinside⟩⟩ := (mem_visit_iff hchain).mp h
  · refine ⟨[], fun other hother => ?_, hpath⟩
    exact htree.isEntryName _ _ hget other (by simpa using Or.inr (List.mem_singleton.mp hother))
  · obtain ⟨names, -, -, hpath, hmeets⟩ :=
      (mem_descend_iff htree hkeys hrules (silent_inside hrules hchain _)).mp hinside
    refine ⟨names, fun other hother => ?_, hpath⟩
    exact htree.isEntryName _ _ hmeets.isEntry other (by simpa [or_assoc] using Or.inr hother)

/-- The path of a directory differs from all that is listed behind it. -/
theorem components_ne_of_mem_descend (hchain : walker.respectIgnoreFiles = true → chain.Silent)
    {walked : Walked} (h : walked ∈ walker.descend fs base levels chain directory location depth) :
    directory.components ≠ walked.path.components := by
  obtain ⟨names, hne, -, hpath, hmeets⟩ := (mem_descend_iff htree hkeys hrules hchain).mp h
  rw [hpath, components_descendant _ (hmeets.isEntryName htree), ne_eq, List.self_eq_append_right,
    List.map_eq_nil_iff]
  exact hne

/-- No path is listed twice. -/
theorem pairwise_descend (hchain : walker.respectIgnoreFiles = true → chain.Silent) :
    (walker.descend fs base levels chain directory location depth).Pairwise
      fun a b => a.path.components ≠ b.path.components := by
  induction levels generalizing chain directory location depth with
  | zero => exact List.Pairwise.nil
  | succ levels ih =>
      rw [descend_succ]
      split
      · exact List.Pairwise.nil
      refine List.pairwise_flatMap.mpr ⟨?_, ?_⟩
      · rintro ⟨name, entry⟩ -
        have hinside := silent_inside hrules hchain (directory.child name)
        rw [visit]
        split
        · exact List.Pairwise.nil
        split
        · split
          · exact List.Pairwise.nil
          · exact List.pairwise_cons.mpr ⟨fun walked hwalked =>
              components_ne_of_mem_descend htree hkeys hrules hinside hwalked, ih hinside⟩
        · exact List.pairwise_singleton _ _
      · refine (hkeys.pairwise_children location).imp_of_mem ?_
        rintro ⟨name, entry⟩ ⟨other, held⟩ hname hother hne a ha b hb heq
        obtain ⟨names, hnames, hpath⟩ :=
          exists_of_mem_visit htree hkeys hrules hchain (hkeys.mem_children_iff.mp hname) ha
        obtain ⟨others, hothers, hpath'⟩ :=
          exists_of_mem_visit htree hkeys hrules hchain (hkeys.mem_children_iff.mp hother) hb
        rw [hpath, hpath'] at heq
        exact hne (List.cons.inj (descendant_inj _ hnames hothers heq)).1

theorem pairwise_below (base start : Path) :
    (walker.below fs base start).Pairwise fun a b => a.path.components ≠ b.path.components := by
  rw [below]
  split
  · apply pairwise_descend htree hkeys hrules
    intro hrespect
    rw [if_pos hrespect]
    exact Ignore.Chain.silent_atStart (hrules hrespect) start _
  · exact List.Pairwise.nil

end Distinct

end TreeFold.Walker
