import TreeFold.Proofs.FileSystem.Descent

/-!
# Obstacles on the way of a path

A file in the way and a name that is too long stay there. Making directories that fails has run into
such an obstacle, with all directories before it made. So making them again, then or later, makes
nothing more and ends alike: what was made is still there, and what failed fails.

The second failure may have another cause, since a directory made on the way can lead a path that
steps back out of it to a file. Paths that do not step up fail for the same cause.
-/

namespace TreeFold.FileSystem

open Component TreeFold.Path

/-- The path meets something other than a missing entry on its way. -/
def Blocks (fs : FileSystem) (path : Path) (cause : Error) : Prop :=
  cause ≠ .notFound ∧ fs.descend (path.start fs.workingDir) path.moves = .error cause

/-- The error reported for a cause: the cause itself, or, where a file stands in the place of a
directory, that an entry exists there. -/
def Reports (cause e : Error) : Prop :=
  e = cause ∨ cause = .notDirectory ∧ e = .alreadyExists

section Blocks

variable {fs later left : FileSystem} {path : Path} {e cause : Error} {piece : Text}
  {c : Component}

theorem Blocks.not_leads (h : fs.Blocks path cause) : ¬fs.Leads path := by
  intro hleads
  obtain ⟨reached, hreached⟩ := leads_iff_descend.mp hleads
  rw [h.2] at hreached
  cases hreached

/-- What is in the way stays there. -/
theorem Blocks.retains (hfs : fs.LinkFree) (hretains : fs.Retains later)
    (h : fs.Blocks path cause) : later.Blocks path cause := by
  obtain ⟨hcause, hdescend⟩ := h
  have hfound : fs.descend (path.start fs.workingDir) path.moves ≠ .error .notFound := by
    rw [hdescend]
    simpa using hcause
  refine ⟨hcause, ?_⟩
  rw [start, hretains.workingDir, ← start, descend_retains hfs hretains hfound, hdescend]

/-- What is in the way of a path is in the way of all paths behind it. -/
theorem Blocks.child (hpiece : IsPiece piece c) (h : fs.Blocks path cause) :
    fs.Blocks (path.child piece) cause := by
  refine ⟨h.1, ?_⟩
  rw [start_child _ path hpiece, moves_child path hpiece, descend_append, h.2]

variable (hfs : fs.LinkFree) (htree : fs.IsTree)
include hfs htree

/-- Where something is in the way, the directory cannot be made. -/
theorem Blocks.exists_makeDirectory (h : fs.Blocks path cause)
    (hcheck : checkPath path = .ok ()) : ∃ e, e ≠ .notFound ∧ fs.makeDirectory path = .error e := by
  obtain ⟨hcause, hdescend⟩ := h
  have hmakes := makes_makeDirectory hfs htree hcheck
  rw [hdescend] at hmakes
  generalize fs.makeDirectory path = result at hmakes ⊢
  cases hmakes with
  | stopped => exact ⟨cause, hcause, rfl⟩
  | taken => exact ⟨.alreadyExists, by simp, rfl⟩
  | new made => exact absurd rfl hcause

/-- Behind a name that is too long, no directory can be made for this reason. -/
theorem Blocks.makeDirectory_of_long (h : fs.Blocks path .nameTooLong)
    (hcheck : checkPath path = .ok ()) : fs.makeDirectory path = .error .nameTooLong := by
  have hmakes := makes_makeDirectory hfs htree hcheck
  rw [h.2] at hmakes
  generalize fs.makeDirectory path = result at hmakes ⊢
  cases hmakes with
  | stopped => rfl

/-- A directory that is not there and could not be made, although the one above is there, has
something in the way. -/
theorem exists_blocks (hcheck : checkPath path = .ok ()) (h : fs.makeDirectory path = .error e)
    (hne : e ≠ .notFound) (hleads : ¬fs.Leads path) :
    ∃ cause, fs.Blocks path cause ∧ Reports cause e := by
  have hmakes := makes_makeDirectory hfs htree hcheck
  rw [h] at hmakes
  rw [leads_iff_descend] at hleads
  generalize hdescend : fs.descend (path.start fs.workingDir) path.moves = found
    at hmakes hleads
  cases hmakes with
  | there reached => exact absurd ⟨reached, rfl⟩ hleads
  | stopped => exact ⟨e, ⟨hne, hdescend⟩, Or.inl rfl⟩
  | taken => exact ⟨.notDirectory, ⟨by simp, hdescend⟩, Or.inr ⟨rfl, rfl⟩⟩

/-- A directory that cannot be settled, although the one above is there, has something in the
way. -/
theorem exists_blocks_of_settle (hcheck : checkPath path = .ok ())
    (hmake : fs.makeDirectory path ≠ .error .notFound)
    (h : fs.settle path (fs.makeDirectory path) = ⟨some e, left⟩) :
    ∃ cause, left.Blocks path cause ∧ Reports cause e ∧ left.makeDirectory path = .error e := by
  obtain ⟨hresult, hdirectory, rfl⟩ := settle_some h
  have hne : e ≠ .notFound := by
    rintro rfl
    exact hmake hresult
  have hleads : ¬left.Leads path := by
    intro hleads
    exact hdirectory ((isDirectory_iff hfs).mpr ⟨hcheck, hleads⟩)
  obtain ⟨cause, hblocks, hreports⟩ := exists_blocks hfs htree hcheck hresult hne hleads
  exact ⟨cause, hblocks, hreports, hresult⟩

/-- A directory behind one that is there is not missing it. -/
theorem makeDirectory_child_of_leads (hpiece : IsPiece piece c)
    (hcheck : checkPath (path.child piece) = .ok ()) (h : fs.Leads path) :
    fs.makeDirectory (path.child piece) ≠ .error .notFound := by
  intro hmake
  obtain ⟨reached, hreached⟩ := leads_iff_descend.mp h
  rw [descend_of_makeDirectory_child hfs htree hpiece hcheck hmake] at hreached
  cases hreached

/-- One directory at the start is not missing the one above it. -/
theorem makeDirectory_single (hparts : AreComponents [c])
    (hcheck : checkPath (ofComponents [c]) = .ok ()) :
    fs.makeDirectory (ofComponents [c]) ≠ .error .notFound := by
  have hstart : ∀ path : Path, path.moves = [] → fs.Leads path := by
    intro path hmoves
    rw [Leads, hmoves]
    exact htree.get?_start path
  obtain ⟨first, rest, heq, hfirst, hrest⟩ := hparts
  rcases hfirst with hnil | hroot | hcurrent
  · obtain ⟨piece, hpiece⟩ : ∃ piece, IsPiece piece c := by
      rw [hnil, List.nil_append] at heq
      exact hrest c (heq ▸ List.mem_cons_self)
    have hchild : ofComponents [c] = (ofComponents []).child piece :=
      ofComponents_concat areComponents_nil hpiece
    rw [hchild] at hcheck ⊢
    exact makeDirectory_child_of_leads hfs htree hpiece hcheck (hstart _ rfl)
  · obtain ⟨rfl, -⟩ : c = root ∧ [] = rest := by simpa [hroot] using heq
    rw [makeDirectory_of_leads hfs hcheck (hstart _ rfl)]
    simp
  · obtain ⟨rfl, -⟩ : c = current ∧ [] = rest := by simpa [hcurrent] using heq
    rw [makeDirectory_of_leads hfs hcheck (hstart _ rfl)]
    simp

/-- Where something is in the way, making directories fails at once. -/
theorem Blocks.makeDirectoriesFrom (h : fs.Blocks path cause) (hcheck : checkPath path = .ok ())
    (c : Component) (above : List Component) :
    ∃ e, e ≠ .notFound ∧ fs.makeDirectory path = .error e ∧
      fs.makeDirectoriesFrom path (c :: above) = ⟨some e, fs⟩ := by
  obtain ⟨e, hne, hmake⟩ := h.exists_makeDirectory hfs htree hcheck
  refine ⟨e, hne, hmake, ?_⟩
  rw [makeDirectoriesFrom_settle (by simpa [hmake] using hne), hmake, settle, if_neg]
  intro hdirectory
  exact h.not_leads ((isDirectory_iff hfs).mp hdirectory).2

end Blocks

section Above

variable {fs left : FileSystem}

/-- A file that is in the way of names was there before directories were added. -/
theorem descend_of_addsDirectories (htree : fs.IsTree) (hadds : fs.AddsDirectories left)
    {location : Location} {names : List Name}
    (h : left.descend location (names.map .normal) = .error .notDirectory) :
    fs.descend location (names.map .normal) = .error .notDirectory := by
  have henter : ∀ l, left.enter l = .error .notDirectory → fs.enter l = .error .notDirectory := by
    intro l hl
    rcases hadds.entry l with hsame | ⟨-, hnew⟩
    · rwa [enter, hsame] at hl
    · rw [enter_of_directory hnew] at hl
      cases hl
  induction names generalizing location with
  | nil => exact henter location h
  | cons name names ih =>
      rw [List.map_cons, descend] at h
      split at h
      · rename_i e he
        cases h
        exact descend_of_error (henter location he) _
      · split at h
        · rename_i here hhere hfits
          obtain ⟨-, rfl⟩ := enter_ok_iff.mp hhere
          have hnext := ih h
          -- What the names lead to stands in a directory.
          have hdir : fs.get? here = some .directory := by
            cases hget : fs.get? (here ++ [name]) with
            | none =>
                have hnone : fs.enter (here ++ [name]) = .error .notFound := by rw [enter, hget]
                rw [followComponent, descend_of_error hnone] at hnext
                cases hnext
            | some entry => exact htree.parent here name entry hget
          rw [List.map_cons, descend_cons hdir, if_pos hfits]
          exact hnext
        · cases h

/-- When names meet a missing entry first, and something is in the way once directories were added,
then a name is too long. -/
theorem Blocks.eq_nameTooLong {path : Path} {cause : Error} (htree : fs.IsTree)
    (hadds : fs.AddsDirectories left) (hparent : .parent ∉ path.components)
    (hmissing : fs.descend (path.start fs.workingDir) path.moves = .error .notFound)
    (h : left.Blocks path cause) : cause = .nameTooLong := by
  obtain ⟨hcause, hdescend⟩ := h
  rcases descend_error_cases hdescend with rfl | rfl | rfl
  · exact absurd rfl hcause
  · obtain ⟨names, hnames, -⟩ := moves_eq_map_normal hparent
    rw [start, hadds.workingDir, ← start, hnames] at hdescend
    rw [hnames, descend_of_addsDirectories htree hadds hdescend] at hmissing
    cases hmissing
  · rfl

end Above

section Again

variable {fs later left : FileSystem} (hfs : fs.LinkFree) (htree : fs.IsTree)
include hfs htree

/-- Making directories fails where something is in the way. Unless the path steps up, making the
last one again fails alike. -/
theorem exists_blocks_of_makeDirectoriesFrom {parts : List Component} {e : Error}
    (hparts : AreComponents parts.reverse)
    (hcheck : checkPath (ofComponents parts.reverse) = .ok ())
    (h : fs.makeDirectoriesFrom (ofComponents parts.reverse) parts = ⟨some e, left⟩) :
    ∃ cause, left.Blocks (ofComponents parts.reverse) cause ∧ Reports cause e ∧
      (.parent ∉ parts → left.makeDirectory (ofComponents parts.reverse) = .error e) := by
  induction parts generalizing e left with
  | nil => simp [makeDirectoriesFrom] at h
  | cons c above ih =>
      by_cases hmake :
          fs.makeDirectory (ofComponents (c :: above).reverse) = .error .notFound
      · rw [makeDirectoriesFrom_above hmake] at h
        have habove : above ≠ [] := by
          rintro rfl
          exact makeDirectory_single hfs htree hparts hcheck hmake
        have hreverse : above.reverse ≠ [] := by simpa using habove
        rw [List.reverse_cons] at hparts hcheck hmake h ⊢
        obtain ⟨hrest, piece, hpiece⟩ := exists_isPiece_of_areComponents hreverse hparts
        rw [ofComponents_concat hrest hpiece] at hcheck hmake h ⊢
        have hfront := checkPath_of_child (ofComponents_ne_nil hreverse hrest) hpiece hcheck
        have hmissing := descend_of_makeDirectory_child hfs htree hpiece hcheck hmake
        have hadds := addsDirectories_makeDirectoriesFrom fs (ofComponents above.reverse) above
        have hleft := htree.makeDirectoriesFrom (ofComponents above.reverse) above
        split at h
        · -- The directories above are there, and the last one failed.
          rename_i found hfound
          rw [hfound] at hadds hleft
          have hlinks := hadds.linkFree hfs
          obtain ⟨-, hleads⟩ := leads_of_makeDirectoriesFrom hfs habove hfound
          have hlast := makeDirectory_child_of_leads hlinks hleft hpiece hcheck hleads
          obtain ⟨cause, hblocks, hreports, hresult⟩ :=
            exists_blocks_of_settle hlinks hleft hcheck hlast h
          exact ⟨cause, hblocks, hreports, fun _ => hresult⟩
        · -- One of the directories above failed.
          rw [h] at hadds hleft
          have hlinks := hadds.linkFree hfs
          obtain ⟨cause, hblocks, hreports, hresult⟩ := ih hrest hfront h
          refine ⟨cause, hblocks.child hpiece, hreports, fun hparent => ?_⟩
          have habsent : .parent ∉ (ofComponents above.reverse).components := by
            rw [components_ofComponents hrest]
            simpa using fun hmem => hparent (List.mem_cons_of_mem _ hmem)
          obtain rfl := hblocks.eq_nameTooLong htree hadds habsent hmissing
          rw [(hblocks.child hpiece).makeDirectory_of_long hlinks hleft hcheck,
            ← hblocks.makeDirectory_of_long hlinks hleft hfront]
          exact hresult fun hmem => hparent (List.mem_cons_of_mem _ hmem)
      · rw [makeDirectoriesFrom_settle hmake] at h
        obtain ⟨cause, hblocks, hreports, hresult⟩ :=
          exists_blocks_of_settle hfs htree hcheck hmake h
        exact ⟨cause, hblocks, hreports, fun _ => hresult⟩

omit htree in
/-- Where a path is refused, no directory is made. -/
theorem makeDirectoriesFrom_of_checkPath {path : Path} {e : Error} (hpath : path.text ≠ [])
    (hcheck : checkPath path = .error e) (c : Component) (above : List Component) :
    fs.makeDirectoriesFrom path (c :: above) = ⟨some e, fs⟩ := by
  have hmake : fs.makeDirectory path = .error e := by
    rw [makeDirectory, hcheck]
    rfl
  have hne : fs.makeDirectory path ≠ .error .notFound := by
    rw [hmake]
    rintro ⟨⟩
    exact checkPath_ne_notFound hpath hcheck
  rw [makeDirectoriesFrom_settle hne, hmake, settle, if_neg]
  rw [isDirectory_iff hfs, hcheck]
  simp

/-- Making directories again, where directories and files have stayed, makes nothing more and ends
alike. Unless the path steps up it fails for the same cause. -/
theorem makeDirectoriesFrom_again (hlinks : later.LinkFree) (hlater : later.IsTree)
    {parts : List Component} (hparts : AreComponents parts.reverse)
    (hretains : (fs.makeDirectoriesFrom (ofComponents parts.reverse) parts).fs.Retains later) :
    ∃ again?, later.makeDirectoriesFrom (ofComponents parts.reverse) parts = ⟨again?, later⟩ ∧
      again?.isSome =
        (fs.makeDirectoriesFrom (ofComponents parts.reverse) parts).error?.isSome ∧
      (.parent ∉ parts →
        again? = (fs.makeDirectoriesFrom (ofComponents parts.reverse) parts).error?) := by
  cases parts with
  | nil => exact ⟨none, rfl, rfl, fun _ => rfl⟩
  | cons c above =>
      have hpath := ofComponents_ne_nil (by simp) hparts
      cases hcheck : checkPath (ofComponents (c :: above).reverse) with
      | error e =>
          rw [makeDirectoriesFrom_of_checkPath hfs hpath hcheck,
            makeDirectoriesFrom_of_checkPath hlinks hpath hcheck]
          exact ⟨some e, rfl, rfl, fun _ => rfl⟩
      | ok u =>
          have hadds := addsDirectories_makeDirectoriesFrom fs (ofComponents (c :: above).reverse)
            (c :: above)
          have hleft := htree.makeDirectoriesFrom (ofComponents (c :: above).reverse)
            (c :: above)
          rcases hmake : fs.makeDirectoriesFrom (ofComponents (c :: above).reverse) (c :: above)
            with ⟨_ | e, left⟩
          · rw [hmake] at hretains
            obtain ⟨-, hleads⟩ := leads_of_makeDirectoriesFrom hfs (by simp) hmake
            have hkept := hleads.mono hretains.workingDir hretains.directory
            rw [makeDirectoriesFrom_of_leads hlinks hcheck hkept]
            exact ⟨none, rfl, rfl, fun _ => rfl⟩
          · rw [hmake] at hretains hadds hleft
            obtain ⟨cause, hblocks, -, hlast⟩ :=
              exists_blocks_of_makeDirectoriesFrom hfs htree hparts hcheck hmake
            have hmade := hadds.linkFree hfs
            have hkept := hblocks.retains hmade hretains
            obtain ⟨e', -, hnow, hagain⟩ := hkept.makeDirectoriesFrom hlinks hlater hcheck c above
            refine ⟨some e', hagain, rfl, fun hparent => ?_⟩
            obtain ⟨e'', hne, hthen⟩ := hblocks.exists_makeDirectory hmade hleft hcheck
            have hsame : e = e'' := Except.error.inj ((hlast hparent).symm.trans hthen)
            have hlater' := makeDirectory_retains hmade hleft hlinks hlater hretains hthen hne
            rw [hnow] at hlater'
            rw [hsame, ← Except.error.inj hlater']

/-- Making the directories that lead to an entry again makes nothing more and ends alike. Unless the
path steps up it fails for the same cause. -/
theorem makeParents_again (hlinks : later.LinkFree) (hlater : later.IsTree) {path : Path}
    (hretains : (fs.makeParents path).fs.Retains later) :
    ∃ again?, later.makeParents path = ⟨again?, later⟩ ∧
      again?.isSome = (fs.makeParents path).error?.isSome ∧
      (.parent ∉ path.components → again? = (fs.makeParents path).error?) := by
  simp only [makeParents] at hretains ⊢
  cases hparent : path.parent? with
  | none => exact ⟨none, rfl, rfl, fun _ => rfl⟩
  | some above =>
      obtain ⟨hplain, last, hparts, -⟩ := parent?_eq_some hparent
      have hcomponents : AreComponents above.components.reverse.reverse := by
        rw [List.reverse_reverse]
        exact areComponents above
      have hagain := makeDirectoriesFrom_again hfs htree hlinks hlater hcomponents
      rw [List.reverse_reverse, ← hplain, List.mem_reverse] at hagain
      simp only [hparent, makeDirectories] at hretains ⊢
      obtain ⟨again?, hchange, hsome, hsame⟩ := hagain hretains
      refine ⟨again?, hchange, hsome, fun hup => hsame fun hmem => hup ?_⟩
      rw [hparts]
      exact List.mem_append_left _ hmem

end Again

end TreeFold.FileSystem
