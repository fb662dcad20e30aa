import TreeFold.Proofs.Number.Characters
import TreeFold.Proofs.Settings.Sources

/-!
# Directories from variables

A variable for a directory is read like any other one, as a truth value or a number where it looks
like one, and the directory gets the text of what was read. That is the text of the variable unless
it is a truth value in capitals or a number in another form than its own.
-/

namespace TreeFold.Settings

open Number

/-- The setting of a key that is a directory. -/
def Key.directory? (settings : Settings) : Key → Option Path
  | outputDir => some settings.flatten.outputDir
  | generatedDir => some settings.distribute.generatedDir
  | targetDir => some settings.distribute.targetDir
  | _ => none

/-- A text that stays what it is when it is read as a value: a truth value in lower case, an integer
in canonical form, any other number in its own form, or neither a truth value nor a number. -/
def IsKept (text : Text) : Prop :=
  if lower text = "true".toList ∨ lower text = "false".toList then lower text = text
  else
    match parseInteger? text, parseFloat? text with
    | some _, _ => IsCanonical text
    | none, some x => x.text = text
    | none, none => True

variable {text : Text} {key : Key}

/-- The text of what a text is read as is the text itself when it is kept. -/
theorem textOf?_variableValue_iff (text : Text) :
    textOf? (variableValue text) = some text ↔ IsKept text := by
  rw [variableValue, IsKept]
  by_cases htrue : lower text = "true".toList
  · rw [if_pos htrue, if_pos (Or.inl htrue), htrue]
    exact Option.some_inj
  · by_cases hfalse : lower text = "false".toList
    · rw [if_neg htrue, if_pos hfalse, if_pos (Or.inr hfalse), hfalse]
      exact Option.some_inj
    · rw [if_neg htrue, if_neg hfalse, if_neg (not_or.mpr ⟨htrue, hfalse⟩)]
      cases hinteger : parseInteger? text with
      | some n => exact Option.some_inj.trans (integerText_eq_iff hinteger)
      | none =>
          cases parseFloat? text with
          | some x => exact Option.some_inj
          | none => exact iff_of_true rfl trivial

/-- A text with a character that stands in no number is kept. -/
theorem isKept_of_char {c : Char} (hc : c ∈ text) (hnumber : isNumberChar c = false) :
    IsKept text := by
  have hnot : ¬∀ c ∈ text, isNumberChar c = true := by
    intro hall
    rw [hall c hc] at hnumber
    cases hnumber
  have hword : ∀ word : Text, word.all Char.isAlpha = true → lower text ≠ word :=
    fun word hletters heq => hnot fun c hc =>
      isNumberChar_of_isAlpha (isAlpha_of_map_toLower heq hletters c hc)
  have hinteger : parseInteger? text = none :=
    Option.eq_none_iff_forall_ne_some.mpr fun n hn => hnot (isNumberChar_of_parseInteger? hn)
  have hfloat : parseFloat? text = none :=
    Option.eq_none_iff_forall_ne_some.mpr fun x hx => hnot (isNumberChar_of_parseFloat? hx)
  have hplain := not_or.mpr ⟨hword "true".toList (by decide), hword "false".toList (by decide)⟩
  rw [IsKept, if_neg hplain, hinteger, hfloat]
  trivial

/-- The directory of a key is the text of what its value is read as. -/
theorem directory?_of_read {settings : Settings} {value : Value}
    (hkey : key ∈ [Key.outputDir, .generatedDir, .targetDir])
    (h : key.read (some value) = some (key.get settings)) :
    key.directory? settings = (textOf? value).map Path.mk := by
  simp only [List.mem_cons, List.not_mem_nil, or_false] at hkey
  rcases hkey with rfl | rfl | rfl
  · exact h.symm
  · exact h.symm
  · exact h.symm

/-- The directory of the last variable for it is the text of what the variable is read as. It is the
text of the variable exactly when that is kept, as are all texts that have a character of no
number. -/
theorem load_directory {fs : FileSystem} {environment : Environment} {directory : Path}
    {settings : Settings} {binding : Text × Text}
    (hload : load fs environment directory = .ok settings)
    (hnames : NameKeys environment.bindings)
    (hkey : key ∈ [Key.outputDir, .generatedDir, .targetDir])
    (hlast : (key.matching environment.bindings).getLast? = some binding) :
    key.directory? settings = (textOf? (variableValue binding.2)).map Path.mk ∧
      (key.directory? settings = some ⟨binding.2⟩ ↔ IsKept binding.2) ∧
      ∀ c ∈ binding.2, isNumberChar c = false → key.directory? settings = some ⟨binding.2⟩ := by
  obtain ⟨fields, -, hread⟩ := read_of_load hload hnames
  have hdirectory : key.directory? settings =
      (textOf? (variableValue binding.2)).map Path.mk := by
    apply directory?_of_read hkey
    rw [← hread key, Key.override?, hlast, Option.map_some, Option.some_or]
  have hkept : key.directory? settings = some ⟨binding.2⟩ ↔ IsKept binding.2 := by
    rw [hdirectory, ← textOf?_variableValue_iff, Option.map_eq_some_iff]
    constructor
    · rintro ⟨text, htext, hpath⟩
      obtain rfl : text = binding.2 := congrArg Path.text hpath
      exact htext
    · exact fun htext => ⟨binding.2, htext, rfl⟩
  exact ⟨hdirectory, hkept, fun c hc hnumber => hkept.mpr (isKept_of_char hc hnumber)⟩

/-- A variable that names the output directory by digits with zeros in front. -/
def paddedDigits : Text × Text :=
  ("FLATSPLIT__FLATTEN__OUTPUT_DIR".toList, "007".toList)

/-- The zeros in front are lost. -/
theorem paddedDigits_directory :
    ∃ settings, load ⟨[], []⟩ ⟨[paddedDigits]⟩ ⟨['.']⟩ = .ok settings ∧
      settings.flatten.outputDir = ⟨['7']⟩ ∧ ¬IsKept paddedDigits.2 := by
  have hnames : NameKeys [paddedDigits] := nameKeys_singleton .outputDir (by decide)
  have hlast : (Key.outputDir.matching [paddedDigits]).getLast? = some paddedDigits := by decide
  obtain ⟨settings, hsettings⟩ : ∃ settings,
      (load ⟨[], []⟩ ⟨[paddedDigits]⟩ ⟨['.']⟩).toOption = some settings :=
    Option.isSome_iff_exists.mp (by decide +kernel)
  have hload := eq_ok_of_toOption hsettings
  obtain ⟨hdirectory, hkept, -⟩ := load_directory hload hnames List.mem_cons_self hlast
  have htext : (textOf? (variableValue paddedDigits.2)).map Path.mk = some ⟨['7']⟩ := by decide
  rw [htext] at hdirectory
  refine ⟨settings, hload, Option.some.inj hdirectory, fun h => ?_⟩
  have hsame := hdirectory.symm.trans (hkept.mpr h)
  revert hsame
  decide

end TreeFold.Settings
