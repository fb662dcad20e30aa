import Mathlib.Data.List.TakeWhile
import TreeFold.FileSystem.Write
import TreeFold.Proofs.FileSystem.Resolution
import TreeFold.Proofs.Path.Spelling
import TreeFold.Proofs.Text.Utf8

/-!
# Making directories

A directory is made where nothing was, so making directories adds directories and changes nothing
else. When it succeeds the path leads through directories. When it fails it has done all it could:
trying again fails again and makes nothing more.
-/

namespace TreeFold.FileSystem

open Component TreeFold.Path

/-- How the pieces of a path are cut before the last one that is not empty. -/
theorem pieces_of_splitLast? {path : Path} {before : List Text} {last : Text}
    (h : splitLast? path = some (before, last)) :
    path.moves = before.filterMap ofPiece? ++ (ofPiece? last).toList := by
  rw [splitLast?] at h
  split at h
  · cases h
  · rename_i found front hdrop
    obtain ⟨rfl, rfl⟩ := Prod.mk.inj (Option.some.inj h)
    have hpieces : path.pieces.reverse.takeWhile (· = []) ++ found :: front =
        path.pieces.reverse := by
      rw [← hdrop]
      exact List.takeWhile_append_dropWhile
    have hblank : (path.pieces.reverse.takeWhile (· = [])).reverse.filterMap ofPiece? = [] := by
      apply List.filterMap_eq_nil_iff.mpr
      intro piece hpiece
      have hnil : piece = [] := by
        simpa using List.mem_takeWhile_imp (List.mem_reverse.mp hpiece)
      rw [hnil, ofPiece?_nil]
    rw [moves, ← List.reverse_reverse path.pieces, ← hpieces, List.reverse_append,
      List.reverse_cons, List.filterMap_append, List.filterMap_append, hblank, List.append_nil]
    cases hlast : ofPiece? found <;> simp [hlast]

theorem moves_of_splitLast?_none {path : Path} (h : splitLast? path = none) : path.moves = [] := by
  rw [splitLast?] at h
  split at h
  · rename_i hdrop
    apply List.filterMap_eq_nil_iff.mpr
    intro piece hpiece
    have hnil := List.dropWhile_eq_nil_iff.mp hdrop piece (List.mem_reverse.mpr hpiece)
    rw [of_decide_eq_true hnil, ofPiece?_nil]
  · cases h

theorem mem_pieces_of_splitLast? {path : Path} {before : List Text} {last : Text}
    (h : splitLast? path = some (before, last)) : last ∈ path.pieces := by
  rw [splitLast?] at h
  split at h
  · cases h
  · rename_i found front hdrop
    obtain ⟨-, rfl⟩ := Prod.mk.inj (Option.some.inj h)
    have hmem : found ∈ path.pieces.reverse.dropWhile (· = []) := hdrop ▸ List.mem_cons_self
    exact List.mem_reverse.mp (List.dropWhile_subset _ hmem)

theorem ne_nil_of_splitLast? {path : Path} {before : List Text} {last : Text}
    (h : splitLast? path = some (before, last)) : last ≠ [] := by
  rw [splitLast?] at h
  split at h
  · cases h
  · rename_i found front hdrop
    obtain ⟨-, rfl⟩ := Prod.mk.inj (Option.some.inj h)
    have hhead := List.head?_dropWhile_not (· = []) path.pieces.reverse
    simpa [hdrop] using hhead

/-- The last piece below a path is the name put there. -/
theorem splitLast?_child (path : Path) {piece : Text} {c : Component} (h : IsPiece piece c) :
    ∃ before, splitLast? (path.child piece) = some (before, piece) ∧
      before.filterMap ofPiece? = path.moves := by
  obtain ⟨before, hpieces, hmoves, -⟩ := pieces_child path h
  refine ⟨before, ?_, hmoves⟩
  rw [splitLast?, hpieces, List.reverse_append, List.reverse_singleton, List.singleton_append,
    List.dropWhile_cons_of_neg (by simpa using h.ne_nil)]
  simp

theorem isEntryName_iff {piece : Text} :
    isEntryName piece = true ↔ ofPiece? piece = some (.normal piece) := by
  rw [isEntryName]
  cases hpiece : ofPiece? piece with
  | none => simp
  | some c =>
      rcases (ofPiece?_eq_some hpiece).2.2 with rfl | rfl <;> simp [isNormal]

/-- A last piece that is a name is the name of an entry. -/
theorem isEntryName_of_splitLast? {path : Path} {before : List Text} {last : Text}
    (hsplit : splitLast? path = some (before, last))
    (h : ofPiece? last = some (.normal last)) : IsEntryName last :=
  ⟨h, slash_not_mem_of_mem_splitOn (mem_pieces_of_splitLast? hsplit)⟩

/-- A path that is refused and not empty is not refused for missing. -/
theorem checkPath_ne_notFound {path : Path} (h : path.text ≠ []) :
    checkPath path ≠ .error .notFound := by
  rw [checkPath, if_neg h]
  split
  · simp
  · split <;> simp

/-- A path can be asked for when it is not empty, not too long and holds no character that no path
can hold. -/
theorem checkPath_ok_iff (path : Path) : checkPath path = .ok () ↔
    '\x00' ∉ path.text ∧ path.text ≠ [] ∧ Text.byteLength path.text ≤ maxPathLength := by
  rw [checkPath]
  by_cases hnil : path.text = []
  · simp [hnil]
  · by_cases hnul : '\x00' ∈ path.text
    · simp [hnul]
    · simp [hnul, hnil]

/-- A path that can be asked for can be asked for without its last pieces. -/
theorem checkPath_of_append {front back : Text} (hfront : front ≠ [])
    (h : checkPath ⟨front ++ back⟩ = .ok ()) : checkPath ⟨front⟩ = .ok () := by
  rw [checkPath_ok_iff] at h ⊢
  obtain ⟨hnul, -, hshort⟩ := h
  rw [Text.byteLength_append] at hshort
  exact ⟨fun hmem => hnul (List.mem_append_left back hmem), hfront, Nat.le_of_add_right_le hshort⟩

theorem checkPath_of_child {path : Path} {piece : Text} {c : Component} (hpath : path.text ≠ [])
    (h : IsPiece piece c) (hcheck : checkPath (path.child piece) = .ok ()) :
    checkPath path = .ok () := by
  rw [child, join_of_relative path (isAbsolute_of_isPiece h)] at hcheck
  split at hcheck
  · exact checkPath_of_append hpath hcheck
  · exact checkPath_of_append hpath hcheck

section DirectoryOf

variable {fs : FileSystem}

theorem follow_of_directoryOf {path : Path} {before : List Text} {holder : Location}
    (h : fs.directoryOf path before = .ok holder) :
    fs.follow maxLinks (path.start fs.workingDir) before = .ok ⟨holder, some .directory⟩ := by
  rw [directoryOf, startOf_eq] at h
  cases hfollow : fs.follow maxLinks (path.start fs.workingDir) before with
  | error e =>
      rw [hfollow] at h
      cases h
  | ok place =>
      obtain ⟨location, entry?⟩ := place
      rw [hfollow] at h
      rcases entry? with _ | (_ | _ | _) <;> cases h
      rfl

/-- Without links, the directory that holds the last piece is reached through directories. -/
theorem directoryOf_ok_iff (hfs : fs.LinkFree) (path : Path) {before : List Text}
    {holder : Location} :
    fs.directoryOf path before = .ok holder ↔
      fs.Passes (path.start fs.workingDir) (before.filterMap ofPiece?) ∧
        holder = (before.filterMap ofPiece?).foldl followComponent
          (path.start fs.workingDir) := by
  obtain ⟨onLink, hfollow⟩ := exists_follow_eq fs maxLinks
  rw [directoryOf, hfollow, startOf_eq]
  constructor
  · intro h
    cases hplace : fs.followPieces onLink (path.start fs.workingDir) before with
    | error e =>
        rw [hplace] at h
        cases h
    | ok place =>
        obtain ⟨location, entry?⟩ := place
        rw [hplace] at h
        obtain ⟨hlocation, -, hpasses⟩ := followPieces_spec hfs hplace
        cases entry? with
        | none => cases h
        | some entry =>
            cases entry with
            | directory =>
                cases h
                exact ⟨hpasses rfl, hlocation⟩
            | file bytes => cases h
            | link target => cases h
  · rintro ⟨hpasses, rfl⟩
    have happend := followPieces_append onLink hpasses []
    rw [List.append_nil] at happend
    rw [happend, followPieces, hpasses.target]
    rfl

end DirectoryOf

section MakeDirectory

variable {fs made : FileSystem} {path : Path}

/-- The steps of making one directory. -/
theorem makeDirectory_ok (h : fs.makeDirectory path = .ok made) :
    checkPath path = .ok () ∧ ∃ before last holder, splitLast? path = some (before, last) ∧
      fs.directoryOf path before = .ok holder ∧ ofPiece? last = some (.normal last) ∧
      Text.byteLength last ≤ maxNameLength ∧ fs.get? (holder ++ [last]) = none ∧
      made = fs.put (holder ++ [last]) .directory := by
  rw [makeDirectory] at h
  cases hcheck : checkPath path with
  | error e =>
      rw [hcheck] at h
      cases h
  | ok u =>
      refine ⟨rfl, ?_⟩
      rw [hcheck] at h
      cases hsplit : splitLast? path with
      | none =>
          rw [hsplit] at h
          cases h
      | some found =>
          obtain ⟨before, last⟩ := found
          simp only [hsplit] at h
          cases hholder : fs.directoryOf path before with
          | error e =>
              rw [hholder] at h
              cases h
          | ok holder =>
              simp only [hholder, bind, Except.bind] at h
              by_cases hname : isEntryName last = true
              · by_cases hlong : Text.byteLength last > maxNameLength
                · simp [hname, hlong, throw_eq_error] at h
                · cases hget : fs.get? (holder ++ [last]) with
                  | none =>
                      simp only [hname, hlong, hget, Bool.not_true, Option.isSome_none,
                        Bool.false_eq_true, if_false, pure, Except.pure, Except.ok.injEq] at h
                      exact ⟨before, last, holder, rfl, hholder, isEntryName_iff.mp hname,
                        Nat.not_lt.mp hlong, hget, h.symm⟩
                  | some entry =>
                      simp [hname, hlong, hget, throw_eq_error] at h
              · simp [hname, throw_eq_error] at h

/-- One directory is made where nothing was. -/
theorem addsDirectories_of_makeDirectory (h : fs.makeDirectory path = .ok made) :
    fs.AddsDirectories made := by
  obtain ⟨-, before, last, holder, -, -, -, -, hnone, rfl⟩ := makeDirectory_ok h
  exact AddsDirectories.put hnone

/-- A directory that could be made stands behind directories. -/
theorem passes_of_makeDirectory (hfs : fs.LinkFree) (h : fs.makeDirectory path = .ok made) :
    ∃ front last, path.moves = front ++ [.normal last] ∧
      fs.Passes (path.start fs.workingDir) front ∧ made.Leads path := by
  obtain ⟨-, before, last, holder, hsplit, hholder, hlast, hfits, hnone, rfl⟩ :=
    makeDirectory_ok h
  obtain ⟨hpasses, hplace⟩ := (directoryOf_ok_iff hfs path).mp hholder
  have hmoves : path.moves = before.filterMap ofPiece? ++ [.normal last] := by
    rw [pieces_of_splitLast? hsplit, hlast]
    rfl
  have hadds := AddsDirectories.put hnone
  have hnew : (fs.put (holder ++ [last]) .directory).get? (holder ++ [last]) =
      some .directory := get?_put_self fs (by simp) .directory
  refine ⟨before.filterMap ofPiece?, last, hmoves, hpasses, ?_⟩
  rw [Leads, hmoves, passes_append, put_workingDir, ← hplace]
  have hfront := hpasses.mono fun l hl => hadds.toExtends.keeps l _ hl
  have htarget := hfront.target
  rw [← hplace] at htarget
  exact ⟨hfront, htarget, hfits, hnew⟩

/-- A path that leads through directories needs no directory made. -/
theorem makeDirectory_of_leads (hfs : fs.LinkFree) (hcheck : checkPath path = .ok ())
    (h : fs.Leads path) : fs.makeDirectory path = .error .alreadyExists := by
  rw [makeDirectory, hcheck]
  cases hsplit : splitLast? path with
  | none => rfl
  | some found =>
      obtain ⟨before, last⟩ := found
      have hmoves := pieces_of_splitLast? hsplit
      rw [Leads, hmoves, passes_append] at h
      have hholder := (directoryOf_ok_iff hfs path).mpr ⟨h.1, rfl⟩
      simp only [bind, Except.bind, hholder]
      by_cases hname : isEntryName last = true
      · rw [isEntryName_iff.mp hname] at h
        have hshort : ¬Text.byteLength last > maxNameLength := Nat.not_lt.mpr h.2.2.1
        have hentry := h.2.2.2
        rw [Passes, followComponent] at hentry
        simp [hname, hshort, hentry, throw_eq_error]
      · simp [hname, throw_eq_error]

end MakeDirectory

section MakeDirectories

variable {fs made left : FileSystem} {path : Path} {e : Error}

/-- What settling keeps: the directory made, or one that was there. -/
theorem settle_none (hfs : fs.LinkFree)
    (h : fs.settle path (fs.makeDirectory path) = ⟨none, made⟩) :
    checkPath path = .ok () ∧ made.Leads path := by
  cases hmake : fs.makeDirectory path with
  | ok found =>
      rw [hmake, settle, Change.mk.injEq] at h
      obtain ⟨-, rfl⟩ := h
      obtain ⟨-, -, -, -, hleads⟩ := passes_of_makeDirectory hfs hmake
      exact ⟨(makeDirectory_ok hmake).1, hleads⟩
  | error e =>
      rw [hmake, settle] at h
      split at h
      · rename_i hdirectory
        rw [Change.mk.injEq] at h
        obtain ⟨-, rfl⟩ := h
        exact (isDirectory_iff hfs).mp hdirectory
      · simp at h

/-- Settling fails on an error that no directory makes good, and changes nothing. -/
theorem settle_some {result : Except Error FileSystem}
    (h : fs.settle path result = ⟨some e, left⟩) :
    result = .error e ∧ ¬fs.isDirectory path = true ∧ left = fs := by
  cases result with
  | ok found => simp [settle] at h
  | error cause =>
      rw [settle] at h
      split at h
      · simp at h
      · rename_i hdirectory
        rw [Change.mk.injEq, Option.some.injEq] at h
        exact ⟨by rw [h.1], hdirectory, h.2.symm⟩

/-- A directory that is not missing the one above it is settled at once. -/
theorem makeDirectoriesFrom_settle {c : Component} {above : List Component}
    (h : fs.makeDirectory path ≠ .error .notFound) :
    fs.makeDirectoriesFrom path (c :: above) = fs.settle path (fs.makeDirectory path) := by
  rw [makeDirectoriesFrom]
  split
  · rename_i hmissing
    exact absurd hmissing h
  · rfl

/-- A directory that misses the one above it is settled after that one was made. -/
theorem makeDirectoriesFrom_above {c : Component} {above : List Component}
    (h : fs.makeDirectory path = .error .notFound) :
    fs.makeDirectoriesFrom path (c :: above) =
      match fs.makeDirectoriesFrom (.ofComponents above.reverse) above with
      | ⟨none, made⟩ => made.settle path (made.makeDirectory path)
      | failed => failed := by
  cases habove : fs.makeDirectoriesFrom (.ofComponents above.reverse) above with
  | mk error? made => cases error? <;> simp [makeDirectoriesFrom, h, habove]

section Keeps

variable {P : FileSystem → Prop}
  (hmakes : ∀ {fs path made}, P fs → fs.makeDirectory path = .ok made → P made)
include hmakes

theorem settle_keeps (h : P fs) (path : Path) :
    P (fs.settle path (fs.makeDirectory path)).fs := by
  cases hmake : fs.makeDirectory path with
  | ok found => exact hmakes h hmake
  | error e =>
      rw [settle]
      split
      · exact h
      · exact h

/-- What making one directory keeps is kept when all that lead to it are made. -/
theorem makeDirectoriesFrom_keeps (h : P fs) (path : Path) (parts : List Component) :
    P (fs.makeDirectoriesFrom path parts).fs := by
  induction parts generalizing path with
  | nil => exact h
  | cons c above ih =>
      by_cases hmake : fs.makeDirectory path = .error .notFound
      · rw [makeDirectoriesFrom_above hmake]
        have habove := ih (.ofComponents above.reverse)
        split
        · rename_i made hmade
          rw [hmade] at habove
          exact settle_keeps hmakes habove path
        · exact habove
      · rw [makeDirectoriesFrom_settle hmake]
        exact settle_keeps hmakes h path

theorem makeParents_keeps (h : P fs) (path : Path) : P (fs.makeParents path).fs := by
  rw [makeParents]
  split
  · exact makeDirectoriesFrom_keeps hmakes h _ _
  · exact h

end Keeps

theorem addsDirectories_makeDirectoriesFrom (fs : FileSystem) (path : Path)
    (parts : List Component) : fs.AddsDirectories (fs.makeDirectoriesFrom path parts).fs :=
  makeDirectoriesFrom_keeps (fun h hmake => h.trans (addsDirectories_of_makeDirectory hmake))
    (AddsDirectories.refl fs) path parts

/-- Making directories adds directories and changes nothing else. -/
theorem addsDirectories_makeDirectories (fs : FileSystem) (path : Path) :
    fs.AddsDirectories (fs.makeDirectories path).fs :=
  addsDirectories_makeDirectoriesFrom fs path path.components.reverse

/-- A directory at the location is made for the path or for one that leads to it, where at most
directories were added before. -/
def MakesAt (fs : FileSystem) (path : Path) (location : Location) : Prop :=
  ∃ (front : Path) (now made : FileSystem), front.components <+: path.components ∧
    front.components ≠ [] ∧ fs.AddsDirectories now ∧ now.makeDirectory front = .ok made ∧
    made.get? location ≠ now.get? location

/-- What is new after directories were made was made for the path or for one that leads to it. -/
theorem makesAt_of_makeDirectoriesFrom {location : Location} {parts : List Component}
    (hparts : path.components = parts.reverse)
    (hnew : (fs.makeDirectoriesFrom path parts).fs.get? location ≠ fs.get? location) :
    fs.MakesAt path location := by
  induction parts generalizing path with
  | nil => exact absurd rfl hnew
  | cons c above ih =>
      rw [List.reverse_cons] at hparts
      have hlast : ∀ now, fs.AddsDirectories now →
          (now.settle path (now.makeDirectory path)).fs.get? location ≠ now.get? location →
          fs.MakesAt path location := by
        intro now hadds hsettle
        cases hmake : now.makeDirectory path with
        | ok made =>
            rw [hmake, settle] at hsettle
            exact ⟨path, now, made, List.prefix_rfl, by simp [hparts], hadds, hmake, hsettle⟩
        | error e =>
            rw [hmake, settle] at hsettle
            split at hsettle <;> exact absurd rfl hsettle
      -- What is new from the directories above was made for a path that leads there.
      have habove : (fs.makeDirectoriesFrom (ofComponents above.reverse) above).fs.get?
          location ≠ fs.get? location → fs.MakesAt path location := by
        intro hmade
        have hcomponents : (ofComponents above.reverse).components = above.reverse :=
          components_ofComponents (hparts ▸ areComponents path).of_concat
        obtain ⟨front, now, made, hfront, hrest⟩ := ih hcomponents hmade
        refine ⟨front, now, made, hfront.trans ?_, hrest⟩
        rw [hcomponents, hparts]
        exact List.prefix_append _ _
      by_cases hmake : fs.makeDirectory path = .error .notFound
      · rw [makeDirectoriesFrom_above hmake] at hnew
        have hadds := addsDirectories_makeDirectoriesFrom fs (ofComponents above.reverse) above
        split at hnew
        · rename_i found hfound
          rw [hfound] at hadds habove
          by_cases hsame : found.get? location = fs.get? location
          · rw [← hsame] at hnew
            exact hlast found hadds hnew
          · exact habove hsame
        · exact habove hnew
      · rw [makeDirectoriesFrom_settle hmake] at hnew
        exact hlast fs (.refl fs) hnew

/-- Where making directories succeeds, the path leads through directories. -/
theorem leads_of_makeDirectoriesFrom (hfs : fs.LinkFree) {parts : List Component}
    (hparts : parts ≠ []) (h : fs.makeDirectoriesFrom path parts = ⟨none, made⟩) :
    checkPath path = .ok () ∧ made.Leads path := by
  cases parts with
  | nil => exact absurd rfl hparts
  | cons c above =>
      by_cases hmake : fs.makeDirectory path = .error .notFound
      · rw [makeDirectoriesFrom_above hmake] at h
        have habove := addsDirectories_makeDirectoriesFrom fs (.ofComponents above.reverse) above
        split at h
        · rename_i found hfound
          rw [hfound] at habove
          exact settle_none (habove.linkFree hfs) h
        · rename_i hfailed
          exact absurd h (hfailed made)
      · rw [makeDirectoriesFrom_settle hmake] at h
        exact settle_none hfs h

/-- Where a path leads through directories, none is made. -/
theorem makeDirectoriesFrom_of_leads (hfs : fs.LinkFree) (hcheck : checkPath path = .ok ())
    (h : fs.Leads path) (parts : List Component) :
    fs.makeDirectoriesFrom path parts = ⟨none, fs⟩ := by
  cases parts with
  | nil => rfl
  | cons c above =>
      have hmake := makeDirectory_of_leads hfs hcheck h
      rw [makeDirectoriesFrom_settle (by simp [hmake]), hmake, settle,
        if_pos ((isDirectory_iff hfs).mpr ⟨hcheck, h⟩)]

/-- Where a directory could be asked for behind the others, the others lead through directories. -/
theorem leads_of_makeDirectory_child (hfs : fs.LinkFree) {piece : Text} {c : Component}
    (hpiece : IsPiece piece c) (h : fs.makeDirectory (path.child piece) = .ok made) :
    fs.Leads path := by
  obtain ⟨front, last, hmoves, hpasses, -⟩ := passes_of_makeDirectory hfs h
  rw [moves_child path hpiece] at hmoves
  rw [start_child _ path hpiece, ← (List.append_inj' hmoves rfl).1] at hpasses
  exact hpasses

theorem leads_of_leads_child {piece : Text} {c : Component} (hpiece : IsPiece piece c)
    (h : fs.Leads (path.child piece)) : fs.Leads path := by
  rw [Leads, moves_child path hpiece, start_child _ path hpiece, passes_append] at h
  exact h.1

theorem checkPath_of_makeDirectory_notFound (hpath : path.text ≠ [])
    (h : fs.makeDirectory path = .error .notFound) : checkPath path = .ok () := by
  cases hcheck : checkPath path with
  | ok u => rfl
  | error cause =>
      rw [makeDirectory, hcheck] at h
      cases h
      exact absurd hcheck (checkPath_ne_notFound hpath)

/-- Where the directories above cannot be made, none is made behind them. -/
theorem makeDirectoriesFrom_blocked (hfs : fs.LinkFree) {above : List Component} {piece : Text}
    {c : Component} (hpiece : IsPiece piece c) (hpath : (ofComponents above.reverse).text ≠ [])
    (hcheck : checkPath ((ofComponents above.reverse).child piece) = .ok ())
    (h : fs.makeDirectoriesFrom (ofComponents above.reverse) above = ⟨some e, fs⟩) :
    ∃ e', fs.makeDirectoriesFrom ((ofComponents above.reverse).child piece) (c :: above) =
      ⟨some e', fs⟩ := by
  have hleads : ¬fs.Leads (ofComponents above.reverse) := by
    intro hleads
    rw [makeDirectoriesFrom_of_leads hfs (checkPath_of_child hpath hpiece hcheck) hleads] at h
    simp at h
  cases hmake : fs.makeDirectory ((ofComponents above.reverse).child piece) with
  | ok made => exact absurd (leads_of_makeDirectory_child hfs hpiece hmake) hleads
  | error cause =>
      by_cases hcause : cause = .notFound
      · rw [hcause] at hmake
        rw [makeDirectoriesFrom_above hmake, h]
        exact ⟨e, rfl⟩
      · rw [makeDirectoriesFrom_settle (by simpa [hmake] using hcause), hmake, settle, if_neg]
        · exact ⟨cause, rfl⟩
        · intro hdirectory
          exact hleads (leads_of_leads_child hpiece ((isDirectory_iff hfs).mp hdirectory).2)

/-- Making directories again after a failure fails and makes nothing more. -/
theorem makeDirectoriesFrom_retry (hfs : fs.LinkFree) {parts : List Component}
    (hparts : AreComponents parts.reverse)
    (h : fs.makeDirectoriesFrom (ofComponents parts.reverse) parts = ⟨some e, left⟩) :
    ∃ e', left.makeDirectoriesFrom (ofComponents parts.reverse) parts = ⟨some e', left⟩ := by
  induction parts generalizing e left with
  | nil => simp [makeDirectoriesFrom] at h
  | cons c above ih =>
      by_cases hmake :
          fs.makeDirectory (ofComponents (c :: above).reverse) = .error .notFound
      · rw [makeDirectoriesFrom_above hmake] at h
        have hadds := addsDirectories_makeDirectoriesFrom fs (ofComponents above.reverse) above
        split at h
        · -- The directories above are there, and the last one failed.
          rename_i found hfound
          rw [hfound] at hadds
          obtain ⟨hresult, -, rfl⟩ := settle_some h
          have hagain : left.makeDirectoriesFrom (ofComponents above.reverse) above =
              ⟨none, left⟩ := by
            by_cases habove : above = []
            · rw [habove]
              rfl
            · obtain ⟨hcheck, hleads⟩ := leads_of_makeDirectoriesFrom hfs habove hfound
              exact makeDirectoriesFrom_of_leads (hadds.linkFree hfs) hcheck hleads above
          refine ⟨e, ?_⟩
          by_cases hmissing :
              left.makeDirectory (ofComponents (c :: above).reverse) = .error .notFound
          · rw [makeDirectoriesFrom_above hmissing, hagain]
            exact h
          · rw [makeDirectoriesFrom_settle hmissing]
            exact h
        · -- One of the directories above failed.
          rw [h] at hadds
          have habove : above ≠ [] := by
            rintro rfl
            simp [makeDirectoriesFrom] at h
          rw [List.reverse_cons] at hparts hmake ⊢
          have hpath := ofComponents_ne_nil (by simp) hparts
          have hreverse : above.reverse ≠ [] := by simpa using habove
          obtain ⟨hrest, piece, hpiece⟩ := exists_isPiece_of_areComponents hreverse hparts
          obtain ⟨cause, hretry⟩ := ih hrest h
          have hcheck := checkPath_of_makeDirectory_notFound hpath hmake
          rw [ofComponents_concat hrest hpiece] at hcheck ⊢
          have habove := ofComponents_ne_nil hreverse hrest
          exact makeDirectoriesFrom_blocked (hadds.linkFree hfs) hpiece habove hcheck hretry
      · have hcopy := h
        rw [makeDirectoriesFrom_settle hmake] at h
        obtain ⟨-, -, rfl⟩ := settle_some h
        exact ⟨e, hcopy⟩

end MakeDirectories

end TreeFold.FileSystem
