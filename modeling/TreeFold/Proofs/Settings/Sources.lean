import TreeFold.Proofs.Settings.Variables

/-!
# The sources of the settings

Settings come from the content of one file and from the variables for settings. The files behind the
first one that is there make no difference, whatever is in them. Each key has the value of its
variable, or else what the file sets for it, or else the default.
-/

namespace TreeFold.Settings

/-- The configuration file of a directory: its format, and its bytes. -/
def content? (fs : FileSystem) (directory : Path) :
    Option (Format × Except FileSystem.Error (List UInt8)) :=
  (file? fs directory).map fun (path, format) => (format, fs.readBytes path)

/-- The file with these bytes is there, and none of those before it is. -/
structure IsFirst (fs : FileSystem) (directory : Path) (earlier : List (Name × Format))
    (file : Name × Format) (bytes : List UInt8) : Prop where
  noFile : ∀ other ∈ earlier, fs.isFile (directory.child other.1) = false
  isFile : fs.isFile (directory.child file.1) = true
  readBytes : fs.readBytes (directory.child file.1) = .ok bytes

variable {fs other : FileSystem} {environment : Environment} {directory : Path}

/-- The layer of the file is a matter of its content. -/
theorem fileLayer_congr (h : content? other directory = content? fs directory) :
    fileLayer other directory = fileLayer fs directory := by
  rw [content?, content?] at h
  rw [fileLayer, fileLayer]
  cases hother : file? other directory with
  | none =>
      rw [hother, Option.map_none, eq_comm, Option.map_eq_none_iff] at h
      rw [h]
  | some file =>
      rw [hother, Option.map_some, eq_comm, Option.map_eq_some_iff] at h
      obtain ⟨⟨path, format⟩, hfile, hsame⟩ := h
      obtain ⟨hformat, hbytes⟩ := Prod.mk.inj hsame
      rw [hfile]
      simp only [readFile, hbytes, hformat]

/-- The layer of the environment is a matter of the variables for settings. -/
theorem environmentLayer_eq_filter (environment : Environment) :
    environmentLayer environment =
      (environment.bindings.filter isForSettings).filterMap variableField? := by
  rw [environmentLayer, List.filterMap_filter]
  congr
  funext binding
  rw [← isSome_variableField?]
  cases variableField? binding <;> rfl

theorem load_congr {environment' : Environment}
    (hcontent : content? other directory = content? fs directory)
    (hbindings : environment'.bindings.filter isForSettings =
      environment.bindings.filter isForSettings) :
    load other environment' directory = load fs environment directory := by
  rw [load, load, fileLayer_congr hcontent, environmentLayer_eq_filter, hbindings,
    ← environmentLayer_eq_filter]

/-- The content is that of the first file, whatever is behind it. -/
theorem IsFirst.content? {earlier later : List (Name × Format)} {file : Name × Format}
    {bytes : List UInt8} (h : IsFirst fs directory earlier file bytes)
    (hnames : fileNames = earlier ++ file :: later) :
    content? fs directory = some (file.2, .ok bytes) := by
  have hfile : file? fs directory = some (directory.child file.1, file.2) := by
    rw [file?, hnames, List.map_append, List.find?_append, List.find?_eq_none.mpr]
    · rw [Option.none_or, List.map_cons]
      exact List.find?_cons_of_pos h.isFile
    · intro found hfound
      obtain ⟨before, hbefore, rfl⟩ := List.mem_map.mp hfound
      simpa using h.noFile before hbefore
  rw [Settings.content?, hfile, Option.map_some, ← h.readBytes]

theorem eq_ok_of_toOption {result : Except LoadError Settings} {settings : Settings}
    (h : result.toOption = some settings) : result = .ok settings := by
  cases result with
  | error e => cases h
  | ok found => exact congrArg Except.ok (Option.some.inj h)

/-- Settings are loaded from the file with the variables over it. -/
theorem exists_layers_of_load {settings : Settings}
    (h : load fs environment directory = .ok settings) :
    ∃ fields, fileLayer fs directory = .ok fields ∧
      ofValue? (putLayer (putLayer (.table []) fields) (environmentLayer environment)) =
        some settings := by
  rw [load] at h
  cases hlayer : fileLayer fs directory with
  | error e =>
      rw [hlayer] at h
      cases h
  | ok fields =>
      rw [hlayer] at h
      refine ⟨fields, rfl, ?_⟩
      change ofLayers [fields, environmentLayer environment] = .ok settings at h
      rw [ofLayers] at h
      split at h
      · rename_i found hfound
        obtain rfl := Except.ok.inj h
        exact hfound
      · cases h

/-- When the variables name keys, every key is read from its last variable, or else from the
file. -/
theorem read_of_load {settings : Settings} (hload : load fs environment directory = .ok settings)
    (hnames : NameKeys environment.bindings) :
    ∃ fields, fileLayer fs directory = .ok fields ∧
      ∀ key : Key, key.read ((key.override? environment.bindings).or
        (key.inFile? (putLayer (.table []) fields) environment.bindings)) =
          some (key.get settings) := by
  obtain ⟨fields, hlayer, hof⟩ := exists_layers_of_load hload
  obtain ⟨root, hroot⟩ := exists_putLayer [] fields
  refine ⟨fields, hlayer, fun key => ?_⟩
  have hlayered := isLayered_environment environment (putLayer (.table []) fields) hnames
  rw [← hlayered.at?_eq ⟨root, hroot⟩ (hroot ▸ exists_putLayer root _)]
  exact read_of_ofValue? hof key

/-- Settings depend on the content of the first configuration file and on the variables for settings
only, so what is behind the first file makes no difference. When they can be loaded and the
variables name keys, every key is read from its last variable, or else from the file, and has its
default when neither sets it. -/
theorem load_layered (fs : FileSystem) (environment : Environment) (directory : Path) :
    (∀ other environment', content? other directory = content? fs directory →
      environment'.bindings.filter isForSettings = environment.bindings.filter isForSettings →
      load other environment' directory = load fs environment directory) ∧
    (∀ earlier file later bytes, fileNames = earlier ++ file :: later →
      IsFirst fs directory earlier file bytes →
      ∀ other, IsFirst other directory earlier file bytes →
        load other environment directory = load fs environment directory) ∧
    (∀ settings, load fs environment directory = .ok settings → NameKeys environment.bindings →
      ∃ fields, fileLayer fs directory = .ok fields ∧
        ∀ key : Key, key.read ((key.override? environment.bindings).or
          (key.inFile? (putLayer (.table []) fields) environment.bindings)) =
            some (key.get settings)) := by
  refine ⟨fun other environment' => load_congr, ?_, fun settings => read_of_load⟩
  intro earlier file later bytes hnames hfirst other hother
  exact load_congr ((hother.content? hnames).trans (hfirst.content? hnames).symm) rfl

section Examples

/-- A working directory with configuration files. -/
def configured (files : List (String × String)) : FileSystem :=
  ⟨([['w']], .directory) :: files.map fun (name, text) =>
    ([['w'], name.toList], .file (Text.encodeUtf8 text.toList)), [['w']]⟩

/-- The variable that keeps comments. -/
def keepComments : Environment :=
  ⟨[("FLATSPLIT__FLATTEN__STRIP_COMMENTS".toList, "false".toList)]⟩

theorem nameKeys_keepComments : NameKeys keepComments.bindings :=
  nameKeys_singleton .stripComments (by decide)

/-- The file that has one key of a group. -/
def oneKey : String × String :=
  ("flatsplit.yaml", "flatten:\n  collision: rename-with-suffix\n")

/-- The variable, the file and the defaults each set a key of one group, and a file behind the first
one that is not well formed makes no difference. -/
theorem oneKey_layered :
    load (configured [oneKey, ("flatsplit.json", "[")]) keepComments ⟨['.']⟩ =
        load (configured [oneKey]) keepComments ⟨['.']⟩ ∧
      NameKeys keepComments.bindings ∧
      ∃ settings, load (configured [oneKey]) keepComments ⟨['.']⟩ = .ok settings ∧
        settings.flatten.stripComments = false ∧
        settings.flatten.collision = .renameWithSuffix ∧
        settings.flatten.outputDir = ⟨"flatten".toList⟩ ∧
        ∃ fields, fileLayer (configured [oneKey]) ⟨['.']⟩ = .ok fields ∧
          ∀ key : Key, key.read ((key.override? keepComments.bindings).or
            (key.inFile? (putLayer (.table []) fields) keepComments.bindings)) =
              some (key.get settings) := by
  have hfirst : ∀ more, more = [] ∨ more = [("flatsplit.json", "[")] →
      IsFirst (configured (oneKey :: more)) ⟨['.']⟩ [("flatsplit.toml".toList, Value.Toml.parse?)]
        (oneKey.1.toList, Value.Yaml.parse?) (Text.encodeUtf8 oneKey.2.toList) := by
    rintro more (rfl | rfl)
    · exact ⟨by decide +kernel, by decide +kernel, by decide +kernel⟩
    · exact ⟨by decide +kernel, by decide +kernel, by decide +kernel⟩
  have hvalues : (load (configured [oneKey]) keepComments ⟨['.']⟩).toOption.map
      (fun settings => (settings.flatten.stripComments, settings.flatten.collision,
        settings.flatten.outputDir)) = some (false, .renameWithSuffix, ⟨"flatten".toList⟩) := by
    decide +kernel
  obtain ⟨-, hlater, hlayered⟩ := load_layered (configured [oneKey]) keepComments ⟨['.']⟩
  obtain ⟨settings, hsettings, hparts⟩ := Option.map_eq_some_iff.mp hvalues
  simp only [Prod.mk.injEq] at hparts
  obtain ⟨hstrip, hcollision, houtput⟩ := hparts
  have hload := eq_ok_of_toOption hsettings
  refine ⟨?_, nameKeys_keepComments, settings, hload, hstrip, hcollision, houtput,
    hlayered settings hload nameKeys_keepComments⟩
  exact hlater _ _ _ _ rfl (hfirst _ (.inl rfl)) _ (hfirst _ (.inr rfl))

/-- The file that writes a group as an array. -/
def asArray : String × String :=
  ("flatsplit.toml", "flatten = [\"x\"]")

/-- The array sets the output directory when no variable is set. When a variable sets another key of
the group, the output directory is the default. -/
theorem asArray_givesWay :
    (load (configured [asArray]) ⟨[]⟩ ⟨['.']⟩).toOption.map (·.flatten.outputDir) =
        some ⟨['x']⟩ ∧
      NameKeys keepComments.bindings ∧
      Key.outputDir.override? keepComments.bindings = none ∧
      (load (configured [asArray]) keepComments ⟨['.']⟩).toOption.map (·.flatten.outputDir) =
        some ⟨"flatten".toList⟩ :=
  ⟨by decide +kernel, nameKeys_keepComments, rfl, by decide +kernel⟩

end Examples

end TreeFold.Settings
