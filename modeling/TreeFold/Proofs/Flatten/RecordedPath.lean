import TreeFold.Distribute
import TreeFold.Proofs.Flatten.Header
import TreeFold.Proofs.Path.Within

/-!
# The path that a header records

The path from a base to a source steps up from the base to the common start of the two locations and
goes down to the source by names. Put behind the base it leads back to the source, and no path of
this form does so with fewer steps up. It stays where it is put, so that it is accepted below a
target, exactly when there is no step up, that is when the source lies below the base.

A path is missing only when the source or the base is empty. The text that is shown then is also the
name that a source can have.
-/

namespace TreeFold

namespace Path

open Component

variable {workingDir common up down : Location} {base path relative : Path}

section Steps

/-- Steps up take names off the end of a location. -/
theorem foldl_followComponent_parent (location : Location) (count : Nat) :
    (List.replicate count parent).foldl followComponent location =
      location.take (location.length - count) := by
  induction count generalizing location with
  | zero => simp
  | succ count ih =>
      rw [List.replicate_succ, List.foldl_cons, ih, followComponent, List.dropLast_eq_take,
        List.take_take, List.length_take]
      congr 1
      omega

/-- Behind the common start of two locations, the steps between them go up what is left of the one
and down what is left of the other. -/
theorem steps_of_differ (common : Location)
    (hdiffer : ∀ name, up.head? = some name → down.head? ≠ some name) :
    steps (common ++ down) (common ++ up) =
      List.replicate up.length parent ++ down.map normal := by
  induction common with
  | nil =>
      cases up with
      | nil => cases down <;> rfl
      | cons b up =>
          cases down with
          | nil => simp [steps]
          | cons a down =>
              have hne : a ≠ b := fun heq => hdiffer b rfl (by rw [heq, List.head?_cons])
              rw [List.nil_append, List.nil_append, steps, if_neg hne, List.length_cons]
  | cons name common ih => rw [List.cons_append, List.cons_append, steps, if_pos rfl, ih]

/-- Steps up and names lead down behind the common start only when they go up all that is left. -/
theorem length_le_of_follow (hdiffer : ∀ name, up.head? = some name → down.head? ≠ some name)
    {count : Nat} {names : List Name}
    (h : (List.replicate count parent ++ names.map normal).foldl followComponent (common ++ up) =
      common ++ down) : up.length ≤ count := by
  rw [List.foldl_append, foldl_followComponent_parent, foldl_followComponent_normal] at h
  by_contra hshort
  -- The first name of `up` would be kept, and stand where `down` begins.
  have hkept : (common ++ up).length - count = common.length + (up.length - count) := by
    rw [List.length_append]
    omega
  rw [hkept, List.take_length_add_append, List.append_assoc, List.append_cancel_left_eq] at h
  obtain ⟨name, rest, rfl⟩ := List.exists_cons_of_length_pos (by omega : 0 < up.length)
  obtain ⟨keep, hkeep⟩ : ∃ keep, (name :: rest).length - count = keep + 1 :=
    ⟨(name :: rest).length - count - 1, by omega⟩
  rw [hkeep, List.take_succ_cons, List.cons_append] at h
  exact hdiffer name rfl (by rw [← h, List.head?_cons])

/-- Steps up and names are a way down to a location that they go on to. -/
theorem foldl_steps (common up down : Location) :
    (List.replicate up.length parent ++ down.map normal).foldl followComponent (common ++ up) =
      common ++ down := by
  rw [List.foldl_append, foldl_followComponent_parent, foldl_followComponent_normal,
    List.length_append, Nat.add_sub_cancel, List.take_left']
  rfl

end Steps

section Written

/-- Steps up and names of entries are the components of a path. -/
theorem areComponents_steps (count : Nat) {names : List Name}
    (hnames : ∀ name ∈ names, IsEntryName name) :
    AreComponents (List.replicate count parent ++ names.map normal) := by
  refine ⟨[], _, rfl, Or.inl rfl, ?_⟩
  intro c hc
  rcases List.mem_append.mp hc with hc | hc
  · rw [List.eq_of_mem_replicate hc]
    exact ⟨['.', '.'], by decide, by decide⟩
  · obtain ⟨name, hname, rfl⟩ := List.mem_map.mp hc
    exact ⟨name, hnames name hname⟩

/-- A path that is written with steps up and names is relative, and these are its moves. -/
theorem moves_of_components_steps {count : Nat} {names : List Name}
    (h : relative.components = List.replicate count parent ++ names.map normal) :
    relative.isAbsolute = false ∧ relative.moves = relative.components := by
  have hmem : ∀ c ∈ relative.components, c ≠ root ∧ c ≠ current := by
    intro c hc
    rw [h] at hc
    rcases List.mem_append.mp hc with hc | hc
    · rw [List.eq_of_mem_replicate hc]
      decide
    · obtain ⟨name, -, rfl⟩ := List.mem_map.mp hc
      simp
  constructor
  · rw [← Bool.not_eq_true, isAbsolute_iff_head?]
    intro hroot
    exact (hmem root (List.mem_of_mem_head? hroot)).1 rfl
  · rw [moves_eq_filter]
    apply List.filter_eq_self.mpr
    intro c hc
    simpa using hmem c hc

/-- Steps up and names that are put behind a base are followed from where it leads. -/
theorem lexicalLocation?_join_steps (hbase : base.text ≠ []) {count : Nat} {names : List Name}
    (h : relative.components = List.replicate count parent ++ names.map normal) :
    (base.join relative).lexicalLocation? workingDir =
      some ((List.replicate count parent ++ names.map normal).foldl followComponent
        (base.spelled workingDir)) := by
  obtain ⟨hrelative, hmoves⟩ := moves_of_components_steps h
  have htext : (base.join relative).text ≠ [] := by
    rw [join_of_relative base hrelative]
    split <;> simp [hbase]
  rw [lexicalLocation?_eq, if_neg htext, spelled_join workingDir base hrelative, hmoves, h]

/-- A path leads to names of entries below the names of the working directory. -/
theorem isEntryName_of_mem_spelled (hdir : ∀ name ∈ workingDir, IsEntryName name) (path : Path) :
    ∀ name ∈ path.spelled workingDir, IsEntryName name := by
  have hstart : ∀ name ∈ path.start workingDir, IsEntryName name := by
    rw [start]
    split
    · simp
    · exact hdir
  have hmoves : ∀ c ∈ path.moves, ∃ piece, IsPiece piece c :=
    fun c hc => exists_isPiece_of_mem_moves hc
  rw [spelled]
  revert hstart hmoves
  generalize path.moves = moves
  generalize path.start workingDir = location
  intro hstart hmoves
  induction moves generalizing location with
  | nil => exact hstart
  | cons c moves ih =>
      obtain ⟨⟨piece, hpiece⟩, hrest⟩ := List.forall_mem_cons.mp hmoves
      refine ih _ ?_ hrest
      rcases (ofPiece?_eq_some hpiece.1).2.2 with rfl | rfl
      · exact fun name hname => hstart name (List.dropLast_subset _ hname)
      · intro name hname
        rcases List.mem_append.mp hname with hname | hname
        · exact hstart name hname
        · rw [List.mem_singleton.mp hname]
          exact isEntryName_of_isPiece hpiece

end Written

/-- The relative path goes from the base up to the common start of the two locations and down to the
path. It leads back to the path, and no relative path of this form does so with fewer steps up. -/
structure LeadsBack (workingDir : Location) (base path relative : Path)
    (common up down : Location) : Prop where
  base_eq : base.lexicalLocation? workingDir = some (common ++ up)
  path_eq : path.lexicalLocation? workingDir = some (common ++ down)
  differ : ∀ name, up.head? = some name → down.head? ≠ some name
  components : relative.components = List.replicate up.length parent ++ down.map normal
  join : (base.join relative).lexicalLocation? workingDir = path.lexicalLocation? workingDir
  least : ∀ (other : Path) (count : Nat) (names : List Name),
    other.components = List.replicate count parent ++ names.map normal →
    (base.join other).lexicalLocation? workingDir = path.lexicalLocation? workingDir →
    up.length ≤ count

/-- Between two paths that are not empty there is a relative path. -/
theorem exists_leadsBack (hdir : ∀ name ∈ workingDir, IsEntryName name) (hpath : path.text ≠ [])
    (hbase : base.text ≠ []) :
    ∃ relative common up down, path.stepsFrom? workingDir base = some relative ∧
      LeadsBack workingDir base path relative common up down := by
  have hpathAt : path.lexicalLocation? workingDir = some (path.spelled workingDir) := by
    rw [lexicalLocation?_eq, if_neg hpath]
  have hbaseAt : base.lexicalLocation? workingDir = some (base.spelled workingDir) := by
    rw [lexicalLocation?_eq, if_neg hbase]
  have hnames := isEntryName_of_mem_spelled hdir path
  obtain ⟨common, up, down, hup, hdown, hdiffer⟩ :=
    exists_common_start (base.spelled workingDir) (path.spelled workingDir)
  have hsteps : path.stepsFrom? workingDir base =
      some (ofComponents (List.replicate up.length parent ++ down.map normal)) := by
    rw [stepsFrom?, hpathAt, hbaseAt, ← steps_of_differ common hdiffer, ← hup, ← hdown]
    rfl
  have hcomponents :
      (ofComponents (List.replicate up.length parent ++ down.map normal)).components =
        List.replicate up.length parent ++ down.map normal := by
    apply components_ofComponents
    apply areComponents_steps
    intro name hname
    apply hnames
    rw [hdown]
    exact List.mem_append_right _ hname
  refine ⟨_, common, up, down, hsteps, ?_, ?_, hdiffer, hcomponents, ?_, ?_⟩
  · rw [hbaseAt, hup]
  · rw [hpathAt, hdown]
  · rw [lexicalLocation?_join_steps hbase hcomponents, hpathAt, hup, hdown, foldl_steps]
  · intro other count names hother hjoin
    rw [lexicalLocation?_join_steps hbase hother, hpathAt, hup, hdown, Option.some.injEq] at hjoin
    exact length_le_of_follow hdiffer hjoin

/-- A relative path stays where it is put exactly when the path lies under the base. -/
theorem LeadsBack.isContained_iff (h : LeadsBack workingDir base path relative common up down) :
    relative.isContained = true ↔ LiesUnder workingDir base path := by
  have hup : relative.isContained = true ↔ up = [] := by
    rw [Path.isContained_iff, (moves_of_components_steps h.components).1, h.components]
    cases up <;> simp [List.replicate_succ]
  rw [hup]
  constructor
  · rintro rfl
    exact ⟨down, common, by rw [h.base_eq, List.append_nil], h.path_eq⟩
  · rintro ⟨names, start, hstart, hnames⟩
    obtain rfl := Option.some.inj (h.base_eq.symm.trans hstart)
    have hdown := Option.some.inj (h.path_eq.symm.trans hnames)
    rw [List.append_assoc, List.append_cancel_left_eq] at hdown
    cases up with
    | nil => rfl
    | cons name up => exact absurd (by rw [hdown]; rfl) (h.differ name rfl)

/-- There is no path to or from the empty path. -/
theorem stepsFrom?_eq_none_iff :
    path.stepsFrom? workingDir base = none ↔ path.text = [] ∨ base.text = [] := by
  rw [stepsFrom?, lexicalLocation?_eq, lexicalLocation?_eq]
  by_cases hpath : path.text = []
  · simp [hpath]
  · by_cases hbase : base.text = [] <;> simp [hpath, hbase]

end Path

namespace Flatten

open TreeFold.Path

variable {workingDir : Location} {source base : Path}

/-- The text that a header shows is written only once in it. -/
theorem header_eq_iff {shown : Text} :
    header workingDir source base = "// ".toList ++ shown ++ ['\n', '\n'] ↔
      source.stepsFrom? workingDir base = some ⟨shown⟩ ∨
        source.stepsFrom? workingDir base = none ∧ unknownPath = shown := by
  delta header
  cases source.stepsFrom? workingDir base with
  | none => simp
  | some steps =>
      obtain ⟨text⟩ := steps
      simp

/-- Between a source and a base that are not empty there is a relative path. It leads back from the
base with as few steps up as possible, the header shows it, and it is accepted below a target
exactly when the source lies under the base. A header shows the text for a missing path only when
the source or the base is empty, or when that text is the path itself. -/
theorem header_leadsBack (hdir : ∀ name ∈ workingDir, IsEntryName name) (source base : Path) :
    (source.text ≠ [] → base.text ≠ [] →
      ∃ relative common up down, source.stepsFrom? workingDir base = some relative ∧
        LeadsBack workingDir base source relative common up down ∧
        header workingDir source base = "// ".toList ++ relative.text ++ ['\n', '\n'] ∧
        ∀ target, (Distribute.destination? target relative.text).isSome = true ↔
          LiesUnder workingDir base source) ∧
      (header workingDir source base = "// ".toList ++ unknownPath ++ ['\n', '\n'] ↔
        source.text = [] ∨ base.text = [] ∨
          source.stepsFrom? workingDir base = some ⟨unknownPath⟩) := by
  constructor
  · intro hsource hbase
    obtain ⟨relative, common, up, down, hsteps, hleads⟩ := exists_leadsBack hdir hsource hbase
    refine ⟨relative, common, up, down, hsteps, hleads, header_eq hsteps, ?_⟩
    intro target
    rw [← hleads.isContained_iff, Distribute.destination?]
    cases relative.isContained <;> simp
  · rw [header_eq_iff, stepsFrom?_eq_none_iff]
    tauto

/-- A source beside the base, with steps up past the root in its path, is recorded with two steps up
and refused below a target. -/
theorem besideRoot_header_leadsBack :
    ∃ relative common up down,
      (ofString "lib/../../../x/./y//").stepsFrom? [['w']] (ofString "/w/src/") = some relative ∧
      LeadsBack [['w']] (ofString "/w/src/") (ofString "lib/../../../x/./y//") relative
        common up down ∧
      relative = ofString "../../x/y" ∧
      Distribute.destination? (ofString "t") relative.text = none := by
  have hdir : ∀ name ∈ [['w']], IsEntryName name := by decide
  obtain ⟨hfound, -⟩ :=
    header_leadsBack hdir (ofString "lib/../../../x/./y//") (ofString "/w/src/")
  obtain ⟨relative, common, up, down, hsteps, hleads, -, -⟩ := hfound (by decide) (by decide)
  have htext : (ofString "lib/../../../x/./y//").stepsFrom? [['w']] (ofString "/w/src/") =
      some (ofString "../../x/y") := by decide +kernel
  obtain rfl := Option.some.inj (hsteps.symm.trans htext)
  exact ⟨_, common, up, down, hsteps, hleads, rfl, by decide +kernel⟩

/-- A source that bears the name shown for a missing path has this header, although neither it nor
the base is empty. -/
theorem header_namedUnknown :
    header [] (ofString "<unknown path>") (ofString ".") =
        "// ".toList ++ unknownPath ++ ['\n', '\n'] ∧
      (ofString "<unknown path>").text ≠ [] ∧ (ofString ".").text ≠ [] := by
  decide +kernel

end Flatten

end TreeFold
