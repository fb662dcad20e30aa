import Mathlib.Data.List.Basic
import Mathlib.Data.List.TakeWhile
import Mathlib.Tactic.MkIffOfInductiveProp
import TreeFold.Proofs.Text.Malformed
import TreeFold.SourceList

/-!
# What list files name

A list holds an entry on each line that is not blank, between blanks that do not count. The bytes of
an entry name the path that they read as, so an entry that is not UTF-8 names a path with other
bytes than its own. Reading the list gives the entries back, those that are files and those that
are not, each once and in their order, however the two are mixed.
-/

namespace TreeFold.SourceList

open Text

variable {fs : FileSystem} {root list : Path} {text line before after ending : Text}
  {bytes entry : List UInt8} {listed found strays : List (List UInt8)}

section Grammar

/-- Blank characters other than line feeds. -/
def IsPadding (text : Text) : Prop :=
  ∀ c ∈ text, isBlank c = true ∧ c ≠ '\n'

/-- What a line can name: one line, not empty, without blanks at either end. -/
@[mk_iff]
structure Listable (text : Text) : Prop where
  ne_nil : text ≠ []
  oneLine : '\n' ∉ text
  head : ∀ c ∈ text.head?, isBlank c = false
  last : ∀ c ∈ text.getLast?, isBlank c = false

/-- A line ends in a line feed, alone or behind a carriage return. -/
def IsLineEnd (ending : Text) : Prop :=
  ending = ['\n'] ∨ ending = ['\r', '\n']

instance (text : Text) : Decidable (IsPadding text) :=
  decidable_of_iff (text.all fun c => isBlank c && c ≠ '\n') (by simp [IsPadding])

instance (text : Text) : Decidable (Listable text) :=
  decidable_of_iff (text ≠ [] ∧ '\n' ∉ text ∧ text.head?.all (!isBlank ·) ∧
    text.getLast?.all (!isBlank ·)) (by simp [listable_iff, Option.all_eq_true])

instance (ending : Text) : Decidable (IsLineEnd ending) :=
  inferInstanceAs (Decidable (ending = ['\n'] ∨ ending = ['\r', '\n']))

/-- The bytes list the entries, one on a line between blanks. Any line may be blank, and the last
one may lack its end. -/
inductive Lists : List (List UInt8) → List UInt8 → Prop
  | nil {pad : Text} : IsPadding pad → Lists [] (encodeUtf8 pad)
  | last {before after : Text} {entry : List UInt8} : IsPadding before →
      Listable (decodeLossy entry) → IsPadding after →
      Lists [entry] (encodeUtf8 before ++ entry ++ encodeUtf8 after)
  | blank {pad ending : Text} {bytes : List UInt8} {listed : List (List UInt8)} :
      IsPadding pad → IsLineEnd ending → Lists listed bytes →
      Lists listed (encodeUtf8 (pad ++ ending) ++ bytes)
  | entry {before after ending : Text} {entry bytes : List UInt8} {listed : List (List UInt8)} :
      IsPadding before → Listable (decodeLossy entry) → IsPadding after → IsLineEnd ending →
      Lists listed bytes →
      Lists (entry :: listed)
        (encodeUtf8 before ++ entry ++ encodeUtf8 (after ++ ending) ++ bytes)

theorem IsPadding.append {pad more : Text} (hpad : IsPadding pad) (hmore : IsPadding more) :
    IsPadding (pad ++ more) := by
  intro c hc
  exact (List.mem_append.mp hc).elim (hpad c) (hmore c)

theorem IsPadding.not_mem {pad : Text} (h : IsPadding pad) : '\n' ∉ pad :=
  fun hmem => (h '\n' hmem).2 rfl

/-- Entries that lines can name are listed by bytes with one on each line. -/
theorem lists_flatMap (h : ∀ entry ∈ listed, Listable (decodeLossy entry)) :
    Lists listed (listed.flatMap (· ++ [10])) := by
  have hnone : IsPadding [] := by simp [IsPadding]
  induction listed with
  | nil => exact .nil hnone
  | cons entry listed ih =>
      obtain ⟨hentry, hrest⟩ := List.forall_mem_cons.mp h
      exact .entry hnone hentry hnone (Or.inl rfl) (ih hrest)

/-- The parts of a line are read apart when blanks or an end are behind the entry. -/
theorem decodeLossy_line (before : Text) (entry : List UInt8) (behind : Text)
    (h : behind = [] → bytes = []) :
    decodeLossy (encodeUtf8 before ++ entry ++ encodeUtf8 behind ++ bytes) =
      before ++ decodeLossy entry ++ behind ++ decodeLossy bytes := by
  have hentry : decodeLossy (entry ++ (encodeUtf8 behind ++ bytes)) =
      decodeLossy entry ++ (behind ++ decodeLossy bytes) := by
    rw [decodeLossy_append_of_start entry, decodeLossy_encodeUtf8_append]
    by_cases hbehind : behind = []
    · rw [hbehind, h hbehind]
      rintro byte ⟨⟩
    · exact startsChar_of_mem_head? hbehind
  rw [List.append_assoc, List.append_assoc, decodeLossy_encodeUtf8_append, hentry,
    List.append_assoc, List.append_assoc]

/-- An end of a line is a line feed behind blanks. -/
theorem IsLineEnd.exists_padding (h : IsLineEnd ending) :
    ∃ pad, IsPadding pad ∧ ending = pad ++ ['\n'] := by
  rcases h with rfl | rfl
  · exact ⟨[], by simp [IsPadding], rfl⟩
  · refine ⟨['\r'], fun c hc => ?_, rfl⟩
    rw [List.mem_singleton.mp hc]
    decide

end Grammar

section Trim

theorem trim_eq_nil_iff (text : Text) : trim text = [] ↔ isBlankText text = true := by
  rw [trim, trimWhile, trimEndWhile, List.reverse_eq_nil_iff, List.dropWhile_eq_nil_iff,
    isBlankText, List.all_eq_true]
  constructor
  · intro h c hc
    rw [← List.takeWhile_append_dropWhile (p := isBlank) (l := text), List.mem_append] at hc
    rcases hc with hc | hc
    · exact List.all_eq_true.mp List.all_takeWhile c hc
    · exact h c (List.mem_reverse.mpr hc)
  · intro h c hc
    exact h c ((List.dropWhile_suffix _).subset (List.mem_reverse.mp hc))

/-- Blanks in front of what does not begin with one are dropped. -/
theorem dropWhile_padding {pad rest : Text} (hpad : IsPadding pad)
    (hrest : ∀ c ∈ rest.head?, isBlank c = false) : (pad ++ rest).dropWhile isBlank = rest := by
  rw [List.dropWhile_append_of_pos fun c hc => (hpad c hc).1]
  cases rest with
  | nil => rfl
  | cons c rest => rw [List.dropWhile_cons_of_neg (by simp [hrest c rfl])]

/-- What stands between blanks is left. -/
theorem trim_padded (hbefore : IsPadding before) (hentry : Listable line)
    (hafter : IsPadding after) : trim (before ++ line ++ after) = line := by
  have hhead : ∀ c ∈ (line ++ after).head?, isBlank c = false := by
    rw [List.head?_append_of_ne_nil _ hentry.ne_nil]
    exact hentry.head
  have hlast : ∀ c ∈ line.reverse.head?, isBlank c = false := by
    rw [List.head?_reverse]
    exact hentry.last
  have hreverse : IsPadding after.reverse := fun c hc => hafter c (List.mem_reverse.mp hc)
  rw [trim, trimWhile, trimEndWhile, List.append_assoc, dropWhile_padding hbefore hhead,
    List.reverse_append, dropWhile_padding hreverse hlast, List.reverse_reverse]

theorem trim_padding {pad : Text} (hpad : IsPadding pad) : trim pad = [] :=
  (trim_eq_nil_iff pad).mpr (List.all_eq_true.mpr fun c hc => (hpad c hc).1)

end Trim

section Entries

/-- What a line names, unless it is blank. -/
def entryOf? (root : Path) (line : Text) : Option Path :=
  if trim line = [] then none else some (root.join ⟨trim line⟩)

theorem entries_eq (root : Path) (text : Text) :
    entries root text = (text.splitOn '\n').filterMap (entryOf? root) := by
  rw [entries, List.filterMap_map]
  rfl

/-- A list names one path for each line that is not blank. -/
theorem length_entries (root : Path) (text : Text) :
    (entries root text).length = (text.splitOn '\n').countP (!isBlankText ·) := by
  rw [entries_eq, List.length_filterMap_eq_countP]
  apply List.countP_congr
  intro line _
  by_cases hblank : isBlankText line = true
  · simp [entryOf?, (trim_eq_nil_iff line).mpr hblank, hblank]
  · have hne : trim line ≠ [] := fun hnil => hblank ((trim_eq_nil_iff line).mp hnil)
    simp [entryOf?, hne, hblank]

theorem entries_line (root : Path) (hline : '\n' ∉ line) (text : Text) :
    entries root (line ++ '\n' :: text) = (entryOf? root line).toList ++ entries root text := by
  rw [entries_eq, entries_eq, List.splitOn_append_cons_self, List.splitOn_eq_singleton hline]
  cases hentry : entryOf? root line <;> simp [hentry]

theorem entries_lastLine (root : Path) (hline : '\n' ∉ line) :
    entries root line = (entryOf? root line).toList := by
  rw [entries_eq, List.splitOn_eq_singleton hline]
  cases hentry : entryOf? root line <;> simp [hentry]

theorem entryOf?_padding (root : Path) {pad : Text} (hpad : IsPadding pad) :
    entryOf? root pad = none := by
  rw [entryOf?, if_pos (trim_padding hpad)]

theorem entryOf?_padded (root : Path) (hbefore : IsPadding before) (hentry : Listable line)
    (hafter : IsPadding after) :
    entryOf? root (before ++ line ++ after) = some (root.join ⟨line⟩) := by
  rw [entryOf?, trim_padded hbefore hentry hafter, if_neg hentry.ne_nil]

theorem not_mem_padded (hbefore : IsPadding before) (hentry : Listable line)
    (hafter : IsPadding after) : '\n' ∉ before ++ line ++ after := by
  simp only [List.mem_append, not_or]
  exact ⟨⟨hbefore.not_mem, hentry.oneLine⟩, hafter.not_mem⟩

/-- The path that the bytes of an entry name. -/
def named (root : Path) (entry : List UInt8) : Path :=
  root.join ⟨decodeLossy entry⟩

/-- A list names the paths of the entries that its bytes list. -/
theorem entries_of_lists (root : Path) (h : Lists listed bytes) :
    entries root (decodeLossy bytes) = listed.map (named root) := by
  induction h with
  | @nil pad hpad =>
      rw [decodeLossy_encodeUtf8, entries_lastLine root hpad.not_mem, entryOf?_padding root hpad]
      rfl
  | @last before after entry hbefore hentry hafter =>
      have hread : decodeLossy (encodeUtf8 before ++ entry ++ encodeUtf8 after ++ []) =
          before ++ decodeLossy entry ++ after ++ [] :=
        decodeLossy_line before entry after fun _ => rfl
      rw [List.append_nil, List.append_nil] at hread
      rw [hread,
        entries_lastLine root (not_mem_padded hbefore hentry hafter),
        entryOf?_padded root hbefore hentry hafter]
      rfl
  | @blank pad ending bytes listed hpad hend _ ih =>
      -- Split at line feeds, a line keeps the carriage return of its end as one more blank.
      obtain ⟨more, hmore, rfl⟩ := hend.exists_padding
      have hblank := hpad.append hmore
      have htext : pad ++ (more ++ ['\n']) ++ decodeLossy bytes =
          pad ++ more ++ '\n' :: decodeLossy bytes := by simp
      rw [decodeLossy_encodeUtf8_append, htext, entries_line root hblank.not_mem,
        entryOf?_padding root hblank, ih]
      rfl
  | @entry before after ending entry bytes listed hbefore hentry hafter hend _ ih =>
      obtain ⟨more, hmore, rfl⟩ := hend.exists_padding
      have hpad := hafter.append hmore
      have htext : before ++ decodeLossy entry ++ (after ++ (more ++ ['\n'])) ++
          decodeLossy bytes =
            before ++ decodeLossy entry ++ (after ++ more) ++ '\n' :: decodeLossy bytes := by
        simp
      rw [decodeLossy_line before entry _ (by simp), htext,
        entries_line root (not_mem_padded hbefore hentry hpad),
        entryOf?_padded root hbefore hentry hpad, ih]
      rfl

end Entries

section Split

/-- Every entry of a list is a file or missing. -/
theorem length_split (fs : FileSystem) (paths : List Path) :
    (split fs paths).1.length + (split fs paths).2.length = paths.length := by
  rw [split, List.partition_eq_filter_filter]
  exact (List.length_eq_length_filter_add _).symm

/-- The entries of two lists are mixed, each list in its order. -/
inductive Interleaved {α : Type} : List α → List α → List α → Prop
  | nil : Interleaved [] [] []
  | left {found strays listed : List α} (entry : α) : Interleaved found strays listed →
      Interleaved (entry :: found) strays (entry :: listed)
  | right {found strays listed : List α} (entry : α) : Interleaved found strays listed →
      Interleaved found (entry :: strays) (entry :: listed)

theorem interleaved_self {α : Type} (found : List α) : Interleaved found [] found := by
  induction found with
  | nil => exact .nil
  | cons entry found ih => exact .left entry ih

/-- Entries that are files and others are told apart. -/
theorem split_of_interleaved (hmixed : Interleaved found strays listed)
    (hfound : ∀ entry ∈ found, fs.isFile (named root entry) = true)
    (hstrays : ∀ entry ∈ strays, fs.isFile (named root entry) = false) :
    split fs (listed.map (named root)) = (found.map (named root), strays.map (named root)) := by
  rw [split, List.partition_eq_filter_filter]
  induction hmixed with
  | nil => rfl
  | left entry _ ih =>
      obtain ⟨hentry, hrest⟩ := List.forall_mem_cons.mp hfound
      obtain ⟨hfiles, hothers⟩ := Prod.mk.inj (ih hrest hstrays)
      simp [hentry, hfiles, hothers]
  | right entry _ ih =>
      obtain ⟨hentry, hrest⟩ := List.forall_mem_cons.mp hstrays
      obtain ⟨hfiles, hothers⟩ := Prod.mk.inj (ih hfound hrest)
      simp [hentry, hfiles, hothers]

/-- A list file is read as what its bytes read as names. -/
theorem read_eq (root : Path) (hbytes : fs.readBytes list = .ok bytes) :
    read fs list root = .ok (split fs (entries root (decodeLossy bytes))) := by
  rw [read, FileSystem.readText, hbytes]
  simp [Except.map]

end Split

end TreeFold.SourceList
