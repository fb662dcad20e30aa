import TreeFold.Proofs.Distribute.Run
import TreeFold.Proofs.FileSystem.Arrival
import TreeFold.Proofs.Path.Relative

/-!
# Distribution stays below its target

Segments are checked by their components and put behind the target as texts. The moves of such a
path are those of the target and names behind them, so what is written lies where names lead from
the place where the target arrives, as long as no link stands there or below. Directories are also
made on the way to the target. A segment whose path is absolute or steps up is reported, and the
writes are those of the other segments.

Links elsewhere do no harm, and the target may be reached through them.
-/

namespace TreeFold

open Component TreeFold.Path FileSystem Text

namespace FileSystem

variable {fs now after : FileSystem} {target tail : Path} {location : Location}

/-- The location is reached by one name or more from where the path arrives. -/
def LiesBelow (fs : FileSystem) (path : Path) (location : Location) : Prop :=
  ∃ root names, fs.Arrives (path.start fs.workingDir) path.moves root ∧ names ≠ [] ∧
    (∀ name ∈ names, IsEntryName name) ∧ location = root ++ names

/-- The path, or a leading part of it, arrives at the location. -/
def LiesOn (fs : FileSystem) (path : Path) (location : Location) : Prop :=
  ∃ front, front <+: path.moves ∧ fs.Arrives (path.start fs.workingDir) front location

/-- No link stands where the path arrives or below. -/
def LinkFreeAt (fs : FileSystem) (path : Path) : Prop :=
  ∀ root, fs.Arrives (path.start fs.workingDir) path.moves root → fs.LinkFreeBelow root

/-- What was there is still there, files that are new or changed lie below the target, and new
directories lie below the target or on it. -/
structure StaysBelow (fs : FileSystem) (target : Path) (now : FileSystem) : Prop where
  develops : fs.Develops now
  file : ∀ location bytes, now.get? location = some (.file bytes) →
    fs.get? location ≠ some (.file bytes) → fs.LiesBelow target location
  directory : ∀ location, now.get? location = some .directory →
    fs.get? location ≠ some .directory → fs.LiesBelow target location ∨ fs.LiesOn target location

theorem LinkFreeBelow.develops {root : Location} (h : fs.LinkFreeBelow root)
    (hdevelops : fs.Develops now) : now.LinkFreeBelow root := by
  intro names linked hget
  exact h names linked ((hdevelops.link_iff _ linked).mp hget)

/-- Below a location without links, pieces that are names lead where they are written. -/
theorem location_of_followPieces {root : Location} (hlinks : fs.LinkFreeBelow root)
    {onLink : Location → Path → List Text → Except Error Place} {pieces : List Text}
    {names : List Name} (hnames : pieces.filterMap ofPiece? = names.map .normal) {place : Place}
    (h : fs.followPieces onLink root pieces = .ok place) :
    place.location = root ++ names ∧ place.entry? = fs.get? place.location := by
  induction pieces generalizing root names with
  | nil =>
      obtain rfl : names = [] := by simpa using hnames.symm
      cases h
      exact ⟨(List.append_nil root).symm, rfl⟩
  | cons piece rest ih =>
      obtain ⟨-, hnext⟩ := followPieces_cons_inv (hlinks [piece]) h
      cases hpiece : ofPiece? piece with
      | none =>
          rw [hpiece] at hnext
          rw [List.filterMap_cons_none hpiece] at hnames
          exact ih hlinks hnames hnext
      | some c =>
          rw [hpiece] at hnext
          rw [List.filterMap_cons_some hpiece] at hnames
          obtain ⟨name, names, rfl, rfl, hrest⟩ := List.map_eq_cons_iff.mp hnames.symm
          obtain ⟨-, hfollow | ⟨rfl, rfl, hnone⟩⟩ := hnext
          · rw [List.append_cons]
            apply ih _ hrest.symm hfollow
            intro more linked
            rw [followComponent, List.append_assoc]
            exact hlinks _ linked
          · obtain rfl : names = [] := by simpa using hrest
            exact ⟨rfl, hnone.symm⟩

/-- Leading moves of a path behind the target arrive below it or on it. -/
theorem lies_of_arrives (hlinks : fs.LinkFreeAt target) (htail : tail.isContained = true)
    {front : List Component} (hfront : front <+: (target.join tail).moves)
    (harrives : fs.Arrives ((target.join tail).start fs.workingDir) front location) :
    fs.LiesBelow target location ∨ fs.LiesOn target location := by
  obtain ⟨hrelative, hparent⟩ := (isContained_iff tail).mp htail
  obtain ⟨names, hnames, hentries⟩ := moves_eq_map_normal hparent
  rw [moves_join target hrelative] at hfront
  rw [start, isAbsolute_join target hrelative] at harrives
  rcases List.prefix_or_prefix_of_prefix hfront (List.prefix_append _ _) with hon | ⟨more, rfl⟩
  · exact Or.inr ⟨front, hon, harrives⟩
  by_cases hmore : more = []
  · rw [hmore, List.append_nil] at harrives
    exact Or.inr ⟨target.moves, List.prefix_rfl, harrives⟩
  · rw [List.prefix_append_right_inj, hnames, List.prefix_iff_eq_take, ← List.map_take] at hfront
    rw [hfront] at hmore harrives
    obtain ⟨root, hroot, hbelow⟩ := harrives.split
    refine Or.inl ⟨root, names.take more.length, hroot, ?_, ?_, ?_⟩
    · simpa using hmore
    · intro name hname
      exact hentries name (List.mem_of_mem_take hname)
    · exact hbelow.eq_append (hlinks root hroot)

/-- What a path behind the target names, unless it is a directory, lies below the target. -/
theorem liesBelow_of_place (hlinks : fs.LinkFreeAt target) (htail : tail.isContained = true)
    (hdevelops : fs.Develops now) {place : Place}
    (hplace : now.place (target.join tail) = .ok place) (hentry : place.entry? ≠ some .directory) :
    fs.LiesBelow target place.location ∧ now.get? place.location ≠ some .directory ∧
      ∀ linked, now.get? place.location ≠ some (.link linked) := by
  obtain ⟨hrelative, hparent⟩ := (isContained_iff tail).mp htail
  obtain ⟨names, hnames, hentries⟩ := moves_eq_map_normal hparent
  obtain ⟨before, hpieces, hbefore, -⟩ := pieces_join target hrelative
  rw [place_eq] at hplace
  split at hplace
  · cases hplace
  rw [hpieces, start, isAbsolute_join target hrelative, hdevelops.workingDir] at hplace
  rcases foundFrom_of_follow hdevelops hplace with ⟨root, links, hroot, hfollow⟩ | ⟨hnil, -⟩
  · rw [hbefore] at hroot
    have hbelow : now.LinkFreeBelow root := (hlinks root hroot).develops hdevelops
    obtain ⟨onLink, hsame⟩ := exists_follow_eq now links
    rw [hsame] at hfollow
    obtain ⟨hlocation, hheld⟩ := location_of_followPieces hbelow hnames hfollow
    rw [hheld, hlocation] at hentry
    rw [hlocation]
    refine ⟨⟨root, names, hroot, ?_, hentries, rfl⟩, hentry, hbelow names⟩
    -- Without a name the path would lead to the place of the target, a directory.
    rintro rfl
    obtain ⟨piece, rest, hcons⟩ := List.exists_cons_of_ne_nil tail.pieces_ne_nil
    rw [hcons] at hfollow
    rw [List.append_nil] at hentry
    exact hentry (get?_of_followPieces_cons hfollow)
  · exact absurd hnil tail.pieces_ne_nil

namespace StaysBelow

theorem refl (fs : FileSystem) (target : Path) : StaysBelow fs target fs where
  develops := .refl fs
  file := fun _ _ h hne => absurd h hne
  directory := fun _ h hne => absurd h hne

variable (hlinks : fs.LinkFreeAt target) (htail : tail.isContained = true)
include hlinks htail

/-- The directories made for a path behind the target lie below the target or on it. -/
theorem makeParents (h : StaysBelow fs target now) :
    StaysBelow fs target (now.makeParents (target.join tail)).fs := by
  have hadds := addsDirectories_makeParents now (target.join tail)
  refine ⟨h.develops.addsDirectories hadds, ?_, ?_⟩
  · intro location bytes hfile hne
    exact h.file location bytes (hadds.get?_file.mp hfile) hne
  · intro location hdirectory hne
    by_cases hsame : (now.makeParents (target.join tail)).fs.get? location = now.get? location
    · exact h.directory location (hsame ▸ hdirectory) hne
    · obtain ⟨front, hfront, harrives⟩ := arrives_of_makeParents h.develops hsame
      exact lies_of_arrives hlinks htail hfront harrives

/-- A file written behind the target lies below it. -/
theorem writeBytes (h : StaysBelow fs target now) {bytes : List UInt8}
    (hwrite : now.writeBytes (target.join tail) bytes = .ok after) :
    StaysBelow fs target after := by
  obtain ⟨place, hplace, hentry, rfl⟩ := exists_place_of_writeBytes hwrite
  obtain ⟨hbelow, hdirectory, hlink⟩ :=
    liesBelow_of_place hlinks htail h.develops hplace hentry
  have hnil : place.location ≠ [] := by
    intro hnil
    rw [hnil] at hdirectory
    exact hdirectory rfl
  refine ⟨h.develops.put_file hnil hdirectory hlink bytes, ?_, ?_⟩
  · intro location held hfile hchanged
    rw [get?_put now hnil] at hfile
    split at hfile
    · rename_i heq
      exact heq ▸ hbelow
    · exact h.file location held hfile hchanged
  · intro location hnew hchanged
    rw [get?_put now hnil] at hnew
    split at hnew
    · cases hnew
    · exact h.directory location hnew hchanged

/-- An attempt to write behind the target stays below it. -/
theorem overwrite (h : StaysBelow fs target now) (text : Text) :
    StaysBelow fs target (now.overwrite (target.join tail) text).fs := by
  have hmade := h.makeParents hlinks htail
  rw [overwrite_eq]
  split
  · exact hmade
  · split
    · rename_i after hwrite
      exact hmade.writeBytes hlinks htail hwrite
    · exact hmade

omit htail in
/-- Attempts to write behind the target stay below it. -/
theorem attempt (h : StaysBelow fs target now) {writes : List (Path × Text)}
    (hwrites : ∀ write ∈ writes, ∃ tail : Path, tail.isContained = true ∧
      write.1 = target.join tail) : StaysBelow fs target (now.attempt writes) := by
  induction writes generalizing now with
  | nil => exact h
  | cons write rest ih =>
      obtain ⟨path, text⟩ := write
      obtain ⟨tail, htail, rfl⟩ := hwrites (path, text) List.mem_cons_self
      rw [attempt_cons]
      apply ih (h.overwrite hlinks htail text)
      intro write hwrite
      exact hwrites write (List.mem_cons_of_mem _ hwrite)

end StaysBelow

end FileSystem

namespace Distribute

variable {options : Options} {rules : List AliasRule} {fs : FileSystem} {blobs : List Path}

/-- The segments of the blobs that can be read, each with its blob. -/
def readableSegments (rules : List AliasRule) (fs : FileSystem) (blobs : List Path) :
    List (Path × Segment) :=
  blobs.flatMap fun blob =>
    match readSegments rules fs blob with
    | .ok segments => segments.map fun segment => (blob, segment)
    | .error _ => []

/-- The path of the segment, aliases rewritten, is absolute or steps up. -/
def escapes (segment : Segment) : Bool :=
  (Path.mk segment.path).isAbsolute || (Path.mk segment.path).components.contains .parent

/-- A distribution stays below its target: it changes nothing else, it reports the segments that
would leave, and it attempts the writes of the others. -/
structure Contained (options : Options) (rules : List AliasRule) (fs : FileSystem)
    (blobs : List Path) (batch : Batch) : Prop where
  stays : fs.StaysBelow options.target batch.fs
  reported : batch.report.failures.filter (fun failure => failure.kind = "unsafe-destination") =
    ((readableSegments rules fs blobs).filter fun (_, segment) => escapes segment).map
      fun (blob, segment) => .escaping blob segment.path
  attempted : batch.fs = if options.dryRun then fs else
    fs.attempt (((readableSegments rules fs blobs).filter fun (_, segment) => !escapes segment).map
      fun (_, segment) => (options.target.join ⟨segment.path⟩, segment.content))

theorem isContained_segment (segment : Segment) :
    (Path.mk segment.path).isContained = !escapes segment := by
  rw [Bool.eq_iff_iff, isContained_iff, escapes, Bool.not_eq_true', Bool.or_eq_false_iff,
    List.contains_eq_mem, decide_eq_false_iff_not]

theorem destination?_eq (target : Path) (segment : Segment) :
    destination? target segment.path =
      if escapes segment then none else some (target.join ⟨segment.path⟩) := by
  rw [destination?, isContained_segment]
  cases escapes segment <;> rfl

/-- The planned writes are those of the segments that do not leave. -/
theorem plannedWrites_eq (options : Options) (rules : List AliasRule) (fs : FileSystem)
    (blobs : List Path) :
    plannedWrites options rules fs blobs =
      ((readableSegments rules fs blobs).filter fun (_, segment) => !escapes segment).map
        fun (_, segment) => (options.target.join ⟨segment.path⟩, segment.content) := by
  rw [plannedWrites, readableSegments, List.filter_flatMap, List.map_flatMap]
  congr 1
  funext blob
  cases readSegments rules fs blob with
  | error failure => rfl
  | ok segments =>
      rw [blobWrites, segmentWrites, ← List.filterMap_eq_filter, List.filterMap_map,
        List.map_filterMap]
      apply List.filterMap_congr
      intro segment _
      simp only [destination?_eq, Function.comp_apply]
      cases hescapes : escapes segment <;> simp [hescapes]

theorem read_of_readSegments {blob : Path} {failure : FileFailure}
    (h : readSegments rules fs blob = .error failure) : ∃ e, failure = .read blob e := by
  rw [readSegments] at h
  split at h
  · cases h
  · rename_i e _
    cases h
    exact ⟨e, rfl⟩

/-- The segments that leave are the failures of their kind among the events. -/
theorem failures_plannedEvents (target : Path) (rules : List AliasRule) (fs : FileSystem)
    (blobs : List Path) :
    ((plannedEvents target rules fs blobs).filterMap Batch.Event.failure?).filter
        (fun failure => failure.kind = "unsafe-destination") =
      ((readableSegments rules fs blobs).filter fun (_, segment) => escapes segment).map
        fun (blob, segment) => .escaping blob segment.path := by
  rw [plannedEvents, readableSegments, List.filterMap_flatMap, List.filter_flatMap,
    List.filter_flatMap, List.map_flatMap]
  congr 1
  funext blob
  cases hread : readSegments rules fs blob with
  | error failure =>
      obtain ⟨e, rfl⟩ := read_of_readSegments hread
      rfl
  | ok segments =>
      have hinput : Batch.Event.failure? .input = none := rfl
      rw [blobEvents, List.filterMap_cons_none hinput, List.filterMap_map, List.filter_filterMap,
        ← List.filterMap_eq_filter, List.filterMap_map, List.map_filterMap]
      apply List.filterMap_congr
      intro segment _
      simp only [segmentEvent, destination?_eq, Function.comp_apply]
      cases hescapes : escapes segment <;> simp [hescapes, Batch.Event.failure?, FileFailure.kind]

/-- A distribution stays below a target at and below which there is no link. -/
theorem files_contained (hlinks : fs.LinkFreeAt options.target) (rules : List AliasRule)
    (blobs : List Path) : Contained options rules fs blobs (files options rules fs blobs) := by
  have hattempted : (files options rules fs blobs).fs =
      if options.dryRun then fs else fs.attempt (plannedWrites options rules fs blobs) := by
    cases hdry : options.dryRun with
    | false => exact fs_files hdry rules fs blobs
    | true =>
        rw [files_eq, hdry, Batch.fs_performAll_dry]
        rfl
  constructor
  · rw [hattempted]
    split
    · exact .refl fs options.target
    · apply (StaysBelow.refl fs options.target).attempt hlinks
      intro write hwrite
      rw [plannedWrites_eq] at hwrite
      obtain ⟨⟨blob, segment⟩, hmem, rfl⟩ := List.mem_map.mp hwrite
      refine ⟨⟨segment.path⟩, ?_, rfl⟩
      rw [isContained_segment]
      exact (List.mem_filter.mp hmem).2
  · rw [files_eq, Batch.failures_performAll (by simp [FileFailure.kind]), failures_plannedEvents]
    rfl
  · rw [hattempted, plannedWrites_eq]

/-- A blob with a segment whose alias makes it absolute, and one that stays. -/
def aliasedBlob : Text :=
  ['#', '@', '/', 'a', '.', 'b', '\n', 'X', '\n', '#', 'u', '/', 'x', '.', 'y', '\n', 'Y', '\n']

/-- The blob beside a directory and a link to it. -/
def besideLink : FileSystem :=
  ⟨[([['d']], .directory), ([['l']], .link ⟨['d']⟩),
    ([['b', '.', 'c']], .file (encodeUtf8 aliasedBlob))], []⟩

/-- Distributing into a new directory behind the link. -/
def behindLink : Options :=
  ⟨⟨['l', '/', 't']⟩, false⟩

/-- No link stands where the new directory would be made. -/
theorem linkFreeAt_behindLink : besideLink.LinkFreeAt behindLink.target := by
  have hmoves : behindLink.target.moves = [.normal ['l'], .normal ['t']] := by decide
  have hlink : besideLink.get? ([] ++ [['l']]) = some (.link ⟨['d']⟩) := by decide
  have hlinked : (Path.mk ['d']).moves = [.normal ['d']] := by decide
  intro root harrives
  rw [hmoves] at harrives
  have hbehind := harrives.tail_of_along hlink
  rw [hlinked] at hbehind
  have htarget := (hbehind.tail_of_down (by decide)).tail_of_down (by decide)
  cases htarget
  apply linkFreeBelow_of_entries
  simp [besideLink, start]

/-- The absolute segment is reported, and the other one is written below the target. -/
theorem besideLink_contained :
    (files behindLink [⟨['@', '/'], ['/']⟩] besideLink [⟨['b', '.', 'c']⟩]).report.failures.filter
        (fun failure => failure.kind = "unsafe-destination") =
        [.escaping ⟨['b', '.', 'c']⟩ ['/', 'a', '.', 'b']] ∧
      besideLink.LiesBelow behindLink.target [['d'], ['t'], ['u'], ['x', '.', 'y']] := by
  have hcontained :=
    files_contained linkFreeAt_behindLink [⟨['@', '/'], ['/']⟩] [⟨['b', '.', 'c']⟩]
  constructor
  · rw [hcontained.reported]
    decide +kernel
  · exact hcontained.stays.file _ [89, 10] (by decide +kernel) (by decide)

end Distribute

end TreeFold
